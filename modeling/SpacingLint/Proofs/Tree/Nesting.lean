import Mathlib.Data.List.Chain
import SpacingLint.Proofs.Tree.Marks

/-! # Full spans within full spans

A node with tokens reaches from where the token before it stopped to where its own last token
does.  A node without tokens stands anywhere behind the last mark (`Spanned`), and it may have
been started while trivia was waiting: then it stands within the trivia of a token that comes
after it, or behind the last token of the node around it.

From this it can be read off how the full spans of a node and its children lie to each other
(`Element.Strung.inner`), and those of two children next to each other
(`Element.Strung.isChain`).  Full spans nest and stand in order throughout a tree exactly if
every node without tokens stands where the token before it stops
(`Element.nest_iff_settles`).
-/
namespace SpacingLint

/-! ## Nodes and children between two places -/

namespace Element

/-- The tokens at and below a child. -/
def held : Element → List Token
  | token t => [t]
  | node n => n.tokens

theorem tokens_cons (child : Element) (rest : List Element) :
    tokens (child :: rest) = child.held ++ tokens rest := by
  cases child <;> rfl

/-- The extent of a child, trivia excluded. -/
def span : Element → Span
  | token t => t.span
  | node n => n.span

end Element

/-- **Between two places**: what has tokens takes up where the last token stopped and leads to
where the next one begins, and its text begins behind all marks before it; what has none stands
behind all of them. -/
structure Spanned (place next : Place) (tokens : List Token) (entry : Nat) (fullSpan : Span) :
    Prop where
  bare : tokens = [] → ∃ offset, fullSpan = Span.caret offset ∧ place.seam ≤ offset ∧
    place.reached ≤ offset ∧ offset ≤ next.reached ∧ next.seam = place.seam
  held : tokens ≠ [] → fullSpan.start = place.seam ∧ fullSpan.stop = next.seam ∧
    place.reached ≤ entry

/-- A node that reaches from its first token to its last. -/
structure Node.Reaches (node : Node) : Prop where
  caret : node.tokens = [] → ∃ offset, node.fullSpan = Span.caret offset
  ends : ∀ first last, node.tokens.head? = some first → node.tokens.getLast? = some last →
    node.span.start = first.span.start ∧ node.fullSpan.start = first.fullSpan.start ∧
      node.fullSpan.stop = last.fullSpan.stop

theorem Node.Reaches.spanned {node : Node} (h : node.Reaches) {place : Place}
    (hflows : Flows place node.marks) :
    Spanned place (place.after node.marks) node.tokens node.span.start node.fullSpan := by
  constructor
  · intro hnil
    obtain ⟨offset, hcaret⟩ := h.caret hnil
    rw [marks_of_bare hnil, hcaret] at hflows ⊢
    obtain ⟨⟨hseam, hreached⟩, hbelow⟩ := hflows
    obtain ⟨hsame, hle⟩ := Flows.bare hbelow (by rw [Element.filterMap_marks, ← tokens_eq, hnil])
    exact ⟨offset, rfl, hseam, hreached, hle, hsame⟩
  · intro hne
    obtain ⟨first, hfirst⟩ := Option.ne_none_iff_exists'.mp (mt List.head?_eq_none_iff.mp hne)
    obtain ⟨last, hlast⟩ := Option.ne_none_iff_exists'.mp (mt List.getLast?_eq_none_iff.mp hne)
    obtain ⟨hspan, hstart, hstop⟩ := h.ends first last hfirst hlast
    obtain ⟨hseam, hreached⟩ := hflows.head (by rw [node.filterMap_marks, hfirst])
    rw [hspan, hstart, hstop, Place.seam_after, node.filterMap_marks, hlast]
    exact ⟨hseam, rfl, hreached⟩

namespace Element

/-- Some children behind a place: their marks can come next, and every node reaches from its
first token to its last. -/
structure Strung (place : Place) (children : List Element) : Prop where
  reaches : ∀ node ∈ preorders children, node.Reaches
  flows : Flows place (marks children)

section Cons

variable {place : Place} {child : Element} {rest : List Element}

theorem mem_preorders_cons_iff {node : Node} :
    node ∈ preorders (child :: rest) ↔ node ∈ preorders [child] ∨ node ∈ preorders rest := by
  rw [← List.singleton_append, preorders_append, List.mem_append]

theorem after_marks_cons :
    place.after (marks (child :: rest)) = (place.after (marks [child])).after (marks rest) := by
  rw [← List.singleton_append, marks_append, Place.after_append]

theorem along_marks_cons {relation : Place → Mark → Prop} :
    Place.Along relation place (marks (child :: rest)) ↔
      Place.Along relation place (marks [child]) ∧
        Place.Along relation (place.after (marks [child])) (marks rest) := by
  rw [← List.singleton_append, marks_append]
  exact Place.along_append

end Cons

namespace Strung

variable {place : Place} {child : Element} {children rest : List Element}

/-- The first child is behind the place, and the rest is behind the first child. -/
theorem cons (h : Strung place (child :: rest)) :
    Strung place [child] ∧ Strung (place.after (marks [child])) rest := by
  obtain ⟨hchild, hrest⟩ := along_marks_cons.mp h.flows
  exact ⟨⟨fun node hnode => h.reaches node (mem_preorders_cons_iff.mpr (.inl hnode)), hchild⟩,
    ⟨fun node hnode => h.reaches node (mem_preorders_cons_iff.mpr (.inr hnode)), hrest⟩⟩

theorem spanned (h : Strung place [child]) :
    Spanned place (place.after (marks [child])) child.held child.span.start child.fullSpan := by
  obtain ⟨hreaches, hflows⟩ := h
  cases child with
  | token t => exact ⟨nofun, fun _ => ⟨hflows.1.1, rfl, hflows.1.2⟩⟩
  | node n =>
    have hmarks : marks [.node n] = n.marks := List.append_nil _
    rw [hmarks] at hflows ⊢
    refine (hreaches n ?_).spanned hflows
    rw [preorders, preorders, List.append_nil, n.preorder_eq]
    exact List.mem_cons_self ..

/-- No child begins before the place it comes after, and one with tokens ends where the last
token of all of them does, or before. -/
theorem within (h : Strung place children) (hchild : child ∈ children) :
    place.seam ≤ child.fullSpan.start ∧
      (tokens children = [] → place.reached ≤ child.fullSpan.start) ∧
      (child.held ≠ [] → child.fullSpan.stop ≤ (place.after (marks children)).seam) := by
  induction children generalizing place with
  | nil => cases hchild
  | cons first rest ih =>
    obtain ⟨hfirst, hrest⟩ := h.cons
    rw [tokens_cons, List.append_eq_nil_iff, after_marks_cons]
    rcases List.mem_cons.mp hchild with rfl | hchild
    · by_cases hnil : child.held = []
      · obtain ⟨offset, hcaret, hseam, hreached, -⟩ := hfirst.spanned.bare hnil
        rw [hcaret]
        exact ⟨hseam, fun _ => hreached, fun hne => absurd hnil hne⟩
      · obtain ⟨hstart, hstop, -⟩ := hfirst.spanned.held hnil
        refine ⟨Nat.le_of_eq hstart.symm, fun hnone => absurd hnone.1 hnil, fun _ => ?_⟩
        rw [hstop]
        exact hrest.flows.seam_le
    · obtain ⟨hstart, hreached, hstop⟩ := ih hrest hchild
      refine ⟨Nat.le_trans hfirst.flows.seam_le hstart, fun hnone => ?_, hstop⟩
      obtain ⟨offset, -, -, hle, hnext, -⟩ := hfirst.spanned.bare hnone.1
      exact Nat.le_trans (Nat.le_trans hle hnext) (hreached hnone.2)

end Strung

/-- How two children next to each other stand.  The first stops before the second begins, if it
has tokens or the second has none; else it stands within the trivia that leads the second. -/
def Adjoins (child next : Element) : Prop :=
  (child.held ≠ [] ∨ next.held = [] → child.fullSpan.stop ≤ next.fullSpan.start) ∧
    (child.held = [] → next.held ≠ [] → next.fullSpan.start ≤ child.fullSpan.start ∧
      child.fullSpan.stop ≤ next.span.start)

namespace Strung

variable {place : Place} {child : Element} {children : List Element}

theorem adjoins {next : Element} (h : Strung place [child])
    (hnext : Strung (place.after (marks [child])) [next]) : child.Adjoins next := by
  constructor
  · intro hcases
    by_cases hnil : child.held = []
    · obtain ⟨offset, hcaret, -, -, hle, -⟩ := h.spanned.bare hnil
      obtain ⟨other, hother, -, hreached, -⟩ :=
        hnext.spanned.bare (hcases.resolve_left (absurd hnil))
      rw [hcaret, hother]
      exact Nat.le_trans hle hreached
    · obtain ⟨-, hstop, -⟩ := h.spanned.held hnil
      by_cases hbare : next.held = []
      · obtain ⟨offset, hcaret, hseam, -⟩ := hnext.spanned.bare hbare
        rw [hstop, hcaret]
        exact hseam
      · rw [hstop, (hnext.spanned.held hbare).1]
  · intro hnil hne
    obtain ⟨offset, hcaret, hseam, -, hle, hsame⟩ := h.spanned.bare hnil
    obtain ⟨hstart, -, hentry⟩ := hnext.spanned.held hne
    rw [hcaret, hstart, hsame]
    exact ⟨hseam, Nat.le_trans hle hentry⟩

/-- Children stand next to each other as they can. -/
theorem isChain (h : Strung place children) : children.IsChain Adjoins := by
  induction children generalizing place with
  | nil => exact .nil
  | cons child rest ih =>
    obtain ⟨hchild, hrest⟩ := h.cons
    refine List.isChain_cons.mpr ⟨fun next hnext => ?_, ih hrest⟩
    obtain ⟨later, rfl⟩ := List.head?_eq_some_iff.mp hnext
    exact hchild.adjoins hrest.cons.1

/-- A child whose marks are settled reaches from seam to seam. -/
theorem ends_of_settles (h : Strung place [child]) (hsettles : Settles place (marks [child])) :
    child.fullSpan.start = place.seam ∧
      child.fullSpan.stop = (place.after (marks [child])).seam := by
  by_cases hnil : child.held = []
  · obtain ⟨offset, hcaret, -, -, -, hsame⟩ := h.spanned.bare hnil
    rw [hcaret, hsame]
    cases child with
    | token t => cases hnil
    | node n =>
      have hn : n.fullSpan = Span.caret offset := hcaret
      rw [marks, n.marks_of_bare hnil, hn] at hsettles
      exact ⟨hsettles.1, hsettles.1⟩
  · obtain ⟨hstart, hstop, -⟩ := h.spanned.held hnil
    exact ⟨hstart, hstop⟩

end Strung
end Element

/-! ## Nesting throughout -/

/-- The full spans of a node's children lie within its own, in order. -/
structure Node.Nests (node : Node) : Prop where
  contains : ∀ child ∈ node.children, node.fullSpan.contains child.fullSpan
  ordered : node.children.IsChain fun child next => child.fullSpan.stop ≤ next.fullSpan.start

namespace Element

/-- Full spans nest throughout some children, which stand in order and end where their last
token does, or before. -/
structure Nest (place : Place) (children : List Element) : Prop where
  nests : ∀ node ∈ preorders children, node.Nests
  ordered : children.IsChain fun child next => child.fullSpan.stop ≤ next.fullSpan.start
  stop_le : ∀ child ∈ children, child.fullSpan.stop ≤ (place.after (marks children)).seam

variable {place : Place} {child : Element} {children rest : List Element}

/-- Children are settled one by one. -/
theorem nest_cons_iff (h : Strung place (child :: rest))
    (hchild : Nest place [child] ↔ Settles place (marks [child]))
    (hrest : Nest (place.after (marks [child])) rest ↔
      Settles (place.after (marks [child])) (marks rest)) :
    Nest place (child :: rest) ↔ Settles place (marks (child :: rest)) := by
  obtain ⟨-, hstrung⟩ := h.cons
  -- What comes next takes up at the seam once its marks are settled.
  have hseam : Settles (place.after (marks [child])) (marks rest) → ∀ next ∈ rest.head?,
      next.fullSpan.start = (place.after (marks [child])).seam := by
    intro hsettles next hnext
    obtain ⟨later, rfl⟩ := List.head?_eq_some_iff.mp hnext
    exact (hstrung.cons.1.ends_of_settles (along_marks_cons.mp hsettles).1).1
  rw [Settles, along_marks_cons, ← Settles, ← hchild, ← hrest]
  constructor
  · intro hnest
    obtain ⟨hfollows, hordered⟩ := List.isChain_cons.mp hnest.ordered
    have hlater : Nest (place.after (marks [child])) rest :=
      ⟨fun node hnode => hnest.nests node (mem_preorders_cons_iff.mpr (.inr hnode)), hordered,
        fun other hother =>
          after_marks_cons ▸ hnest.stop_le other (List.mem_cons_of_mem _ hother)⟩
    refine ⟨⟨fun node hnode => hnest.nests node (mem_preorders_cons_iff.mpr (.inl hnode)),
      List.isChain_singleton _, fun other hother => ?_⟩, hlater⟩
    obtain rfl := List.mem_singleton.mp hother
    cases rest with
    | nil => exact hnest.stop_le other (List.mem_cons_self ..)
    | cons next later =>
      rw [← hseam (hrest.mp hlater) next rfl]
      exact hfollows next rfl
  · rintro ⟨hfirst, hlater⟩
    have hstop := hfirst.stop_le child (List.mem_cons_self ..)
    refine ⟨fun node hnode => ?_, List.isChain_cons.mpr ⟨fun next hnext => ?_, hlater.ordered⟩,
      fun other hother => ?_⟩
    · exact (mem_preorders_cons_iff.mp hnode).elim (hfirst.nests node) (hlater.nests node)
    · rw [hseam (hrest.mp hlater) next hnext]
      exact hstop
    · rw [after_marks_cons]
      rcases List.mem_cons.mp hother with rfl | hother
      · exact Nat.le_trans hstop hstrung.flows.seam_le
      · exact hlater.stop_le other hother

theorem mem_preorders_node_iff {node below : Node} :
    below ∈ preorders [.node node] ↔ below = node ∨ below ∈ preorders node.children := by
  cases node with
  | mk kind span fullSpan children =>
    rw [preorders, preorders, List.append_nil, Node.preorder, List.mem_cons]
    rfl

/-- Full spans nest throughout a node if they do so throughout its children, and it does not
reach beyond its last token. -/
theorem nest_node_iff {node : Node} {inner : Place}
    (hstart : ∀ child ∈ node.children, node.fullSpan.start ≤ child.fullSpan.start)
    (hseam : (inner.after (marks node.children)).seam = (place.after (marks [.node node])).seam)
    (hstop : (inner.after (marks node.children)).seam ≤ node.fullSpan.stop) :
    Nest place [.node node] ↔
      node.fullSpan.stop ≤ (place.after (marks [.node node])).seam ∧
        Nest inner node.children := by
  constructor
  · intro hnest
    obtain ⟨hcontains, hordered⟩ := hnest.nests node (mem_preorders_node_iff.mpr (.inl rfl))
    have hle := hnest.stop_le _ (List.mem_singleton_self _)
    refine ⟨hle, fun below hbelow => ?_, hordered, fun child hchild => ?_⟩
    · exact hnest.nests below (mem_preorders_node_iff.mpr (.inr hbelow))
    · rw [hseam]
      exact Nat.le_trans (Span.contains_iff.mp (hcontains child hchild)).2 hle
  · rintro ⟨hle, hnest⟩
    refine ⟨fun below hbelow => ?_, .singleton _, fun child hchild => ?_⟩
    · rcases mem_preorders_node_iff.mp hbelow with rfl | hbelow
      · exact ⟨fun child hchild => Span.contains_iff.mpr
          ⟨hstart child hchild, Nat.le_trans (hnest.stop_le child hchild) hstop⟩, hnest.ordered⟩
      · exact hnest.nests below hbelow
    · obtain rfl := List.mem_singleton.mp hchild
      exact hle

/-- The children of a node are strung behind the place where it stands, which is that before it
if it has tokens, and its own offset if it has none. -/
theorem Strung.inner {node : Node} (h : Strung place [.node node]) :
    ∃ inner, Strung inner node.children ∧
      (inner.after (marks node.children)).seam = (place.after (marks [.node node])).seam ∧
      (∀ child ∈ node.children, node.fullSpan.start ≤ child.fullSpan.start) ∧
      (inner.after (marks node.children)).seam ≤ node.fullSpan.stop ∧
      (Settles place (marks [.node node]) ↔
        node.fullSpan.stop ≤ (place.after (marks [.node node])).seam ∧
          Settles inner (marks node.children)) := by
  have hreaches : ∀ below ∈ preorders node.children, below.Reaches :=
    fun below hbelow => h.reaches below (mem_preorders_node_iff.mpr (.inr hbelow))
  have hflows := h.flows
  by_cases hnil : node.tokens = []
  · obtain ⟨offset, hcaret, hseam, -, -, hsame⟩ := h.spanned.bare hnil
    have hcaret : node.fullSpan = Span.caret offset := hcaret
    have hmarks : marks [.node node] = .caret offset :: marks node.children := by
      simp [marks, node.marks_of_bare hnil, hcaret, Span.caret]
    rw [hmarks, Place.after_cons] at hsame ⊢
    rw [hmarks] at hflows
    have hinner : Strung (place.pass (.caret offset)) node.children := ⟨hreaches, hflows.2⟩
    refine ⟨_, hinner, rfl, fun child hchild => ?_, ?_, ?_⟩
    · rw [hcaret]
      exact (hinner.within hchild).2.1 (by rw [← node.tokens_eq, hnil])
    · rw [hsame, hcaret]
      exact hseam
    · rw [hsame, hcaret]
      exact and_congr_left fun _ => ⟨Nat.le_of_eq, fun hle => Nat.le_antisymm hle hseam⟩
  · obtain ⟨hstart, hstop, -⟩ := h.spanned.held hnil
    have hmarks : marks [.node node] = marks node.children := by
      simp [marks, node.marks_of_held hnil]
    rw [hmarks] at hstop hflows ⊢
    have hinner : Strung place node.children := ⟨hreaches, hflows⟩
    have hstart : node.fullSpan.start = place.seam := hstart
    have hstop : node.fullSpan.stop = (place.after (marks node.children)).seam := hstop
    refine ⟨place, hinner, rfl, fun child hchild => ?_, Nat.le_of_eq hstop.symm, ?_⟩
    · rw [hstart]
      exact (hinner.within hchild).1
    · exact (and_iff_right (Nat.le_of_eq hstop)).symm

/-- **Full spans nest exactly where marks are settled.** -/
theorem nest_iff_settles : (children : List Element) → {place : Place} → Strung place children →
    (Nest place children ↔ Settles place (marks children))
  | [], _, _ => iff_of_true ⟨nofun, .nil, nofun⟩ trivial
  | .token t :: rest, place, h => by
    have htoken : Nest place [.token t] ↔ Settles place (marks [.token t]) := by
      refine iff_of_true ⟨nofun, .singleton _, fun child hchild => ?_⟩ ⟨trivial, trivial⟩
      obtain rfl := List.mem_singleton.mp hchild
      exact Nat.le_refl _
    exact nest_cons_iff h htoken (nest_iff_settles rest h.cons.2)
  | .node (.mk kind span fullSpan children) :: rest, place, h => by
    obtain ⟨inner, hinner, hseam, hstart, hstop, hsettles⟩ := h.cons.1.inner
    have hchildren : Nest inner children ↔ Settles inner (marks children) :=
      nest_iff_settles children hinner
    have hnode : Nest place [.node _] ↔ _ := nest_node_iff hstart hseam hstop
    exact nest_cons_iff h (hnode.trans ((and_congr_right' hchildren).trans hsettles.symm))
      (nest_iff_settles rest h.cons.2)

/-- Every node below some children is strung behind a place of its own. -/
theorem exists_strung : (children : List Element) → {place : Place} → Strung place children →
    {below : Node} → below ∈ preorders children → ∃ own, Strung own [.node below]
  | .token _ :: rest, _, h, _, hbelow => exists_strung rest h.cons.2 hbelow
  | .node (.mk kind span fullSpan children) :: rest, _, h, below, hbelow => by
    rcases mem_preorders_cons_iff.mp hbelow with hbelow | hbelow
    · rcases mem_preorders_node_iff.mp hbelow with rfl | hbelow
      · exact ⟨_, h.cons.1⟩
      · obtain ⟨inner, hinner, -⟩ := h.cons.1.inner
        exact exists_strung children hinner hbelow
    · exact exists_strung rest h.cons.2 hbelow

end Element

/-! ## The trees that come out -/

/-- Every node without tokens stands where the token before it stops; if there is none, where
the whole begins. -/
def Node.Settled (node : Node) : Prop :=
  Settles ⟨node.fullSpan.start, node.fullSpan.start⟩ node.marks

instance (node : Node) : Decidable node.Settled :=
  inferInstanceAs (Decidable (Place.Along Mark.Settled _ _))

namespace Tree

theorem LaidBefore.reaches {tree : Tree} {lost : List Token} (h : tree.LaidBefore lost)
    {node : Node} (hnode : node ∈ tree.nodes) : node.Reaches := by
  refine ⟨fun hnil => ?_, fun first last hfirst hlast => ?_⟩
  · have hfits := h.fits node hnode
    rw [Node.Fits, hnil, Extent.ofTokens_nil] at hfits
    obtain ⟨offset, -, hcaret⟩ := hfits
    exact ⟨offset, hcaret⟩
  · obtain ⟨hspan, -, hstart, hstop⟩ := h.ends_of_mem hnode hfirst hlast
    exact ⟨hspan, hstart, hstop⟩

/-- The marks of a tree can be followed from where its root begins. -/
theorem LaidBefore.flows {tree : Tree} {lost : List Token} (h : tree.LaidBefore lost)
    (horder : Mark.InOrder tree.root.marks) :
    Flows ⟨tree.root.fullSpan.start, tree.root.fullSpan.start⟩ tree.root.marks := by
  have hroot : tree.root ∈ tree.nodes := by
    rw [nodes_eq, Node.preorder_eq]
    exact List.mem_cons_self ..
  by_cases hnil : tree.root.tokens = []
  · refine flows_of_laid ?_ horder (Nat.le_refl _) ?_
    · rw [Node.filterMap_marks, hnil]
      trivial
    · rw [Node.marks_of_bare hnil] at horder ⊢
      exact List.forall_mem_cons.mpr ⟨Nat.le_refl _, (List.pairwise_cons.mp horder).1⟩
  · have hlaid := h.laid
    rw [Token.allChunks, List.flatMap_append] at hlaid
    have hflows : Flows ⟨0, 0⟩ tree.root.marks := by
      refine flows_of_laid ?_ horder (Nat.le_refl _) fun _ _ => Nat.zero_le _
      rw [Node.filterMap_marks]
      exact (laid_append.mp hlaid).1
    rwa [((h.reaches hroot).spanned hflows).held hnil |>.1]

/-- The root of a tree that comes out of any calls, with all below it. -/
theorem strung_of_replies {calls : List Builder.Call} {tree : Tree}
    (h : (Builder.empty.replies calls).2.finish = .ok tree) :
    Element.Strung ⟨tree.root.fullSpan.start, tree.root.fullSpan.start⟩ [.node tree.root] := by
  have hlaid := laidBefore_of_replies h
  have hordered := Builder.ordered_empty.replies Builder.sound_empty calls
  obtain ⟨hframes, -, hroot, -⟩ := Builder.finish_eq_ok h
  have horder := hordered.inOrder
  rw [Builder.marks, hroot, hframes, Builder.openMarks, List.reverse_nil, List.flatMap_nil,
    List.append_nil, Option.elim_some] at horder
  refine ⟨fun node hnode => hlaid.reaches ?_, ?_⟩
  · rw [nodes_eq]
    simpa [Element.preorders] using hnode
  · simpa [Element.marks] using hlaid.flows horder

/-- **How full spans nest.**  Whatever calls a tree comes out of, no child of a node begins
before the node, with trivia counted on both sides, and one that has tokens ends within it.
Children next to each other stand in order, except that one without tokens may stand within the
trivia that leads the next one.  Full spans nest and stand in order throughout the tree exactly
if every node without tokens stands where the token before it stops. -/
theorem fullSpans_of_replies {calls : List Builder.Call} {tree : Tree}
    (h : (Builder.empty.replies calls).2.finish = .ok tree) :
    (∀ node ∈ tree.nodes,
      (∀ child ∈ node.children, node.fullSpan.start ≤ child.fullSpan.start ∧
        (child.held ≠ [] → child.fullSpan.stop ≤ node.fullSpan.stop)) ∧
      node.children.IsChain Element.Adjoins) ∧
    ((∀ node ∈ tree.nodes, node.Nests) ↔ tree.root.Settled) := by
  have hstrung := strung_of_replies h
  have hnodes : ∀ node, node ∈ tree.nodes ↔ node ∈ Element.preorders [.node tree.root] := by
    intro node
    simp [nodes_eq, Element.preorders]
  constructor
  · intro node hnode
    obtain ⟨place, hown⟩ := Element.exists_strung _ hstrung ((hnodes node).mp hnode)
    obtain ⟨inner, hinner, -, hstart, hstop, -⟩ := hown.inner
    refine ⟨fun child hchild => ⟨hstart child hchild, fun hne => ?_⟩, hinner.isChain⟩
    exact Nat.le_trans ((hinner.within hchild).2.2 hne) hstop
  · have hsettles := Element.nest_iff_settles _ hstrung
    have hmarks : Element.marks [.node tree.root] = tree.root.marks := List.append_nil _
    rw [hmarks] at hsettles
    rw [Node.Settled, ← hsettles]
    constructor
    · intro hnests
      refine ⟨fun node hnode => hnests node ((hnodes node).mpr hnode), .singleton _, ?_⟩
      intro child hchild
      obtain rfl := List.mem_singleton.mp hchild
      by_cases hnil : tree.root.tokens = []
      · obtain ⟨offset, hcaret, -, -, -, hsame⟩ := hstrung.spanned.bare hnil
        have hcaret : tree.root.fullSpan = Span.caret offset := hcaret
        rw [hsame, Element.fullSpan, hcaret]
        exact Nat.le_refl _
      · exact Nat.le_of_eq (hstrung.spanned.held hnil).2.1
    · exact fun hnest node hnode => hnest.nests node ((hnodes node).mp hnode)

/-- Two nodes without tokens, one in the other, right behind the trivia that trails a token. -/
theorem fullSpans_of_replies_settled : ∃ tree,
    (Builder.empty.replies [.lead .whitespace " ", .start .compilationUnit,
        .token .identifier "a", .trail .whitespace " ", .start .block, .start .expression,
        .finish, .finish, .lead .whitespace "\t", .token .endOfFile "", .finish]).2.finish =
      .ok tree ∧
      tree.nodes.length = 3 ∧ tree.root.Settled ∧ ∀ node ∈ tree.nodes, node.Nests := by
  have heval : (Builder.empty.replies [.lead .whitespace " ", .start .compilationUnit,
        .token .identifier "a", .trail .whitespace " ", .start .block, .start .expression,
        .finish, .finish, .lead .whitespace "\t", .token .endOfFile "",
        .finish]).2.finish.toOption.map
      (fun tree => (tree.root.size, decide tree.root.Settled)) = some (3, true) := by
    decide +kernel
  obtain ⟨tree, htree, hboth⟩ := Option.map_eq_some_iff.mp heval
  obtain ⟨hsize, hsettled⟩ := Prod.mk.inj hboth
  have hsettled := of_decide_eq_true hsettled
  refine ⟨tree, eq_ok_of_toOption htree, ?_, hsettled,
    (fullSpans_of_replies (eq_ok_of_toOption htree)).2.mpr hsettled⟩
  rw [nodes_eq, Node.length_preorder, hsize]

/-- **Full spans need not nest**, even if no call is refused: in this tree one node without
tokens stands behind the last token of the node around it, and another one within the trivia of
the token after it. -/
theorem not_nests_of_waiting_trivia : ∃ tree,
    ofCalls [.start .compilationUnit, .lead .whitespace " ", .start .block, .finish,
        .start .expressionStatement, .token .identifier "x", .lead .whitespace " ",
        .start .expression, .finish, .finish, .token .endOfFile "", .finish] = .ok tree ∧
      (∃ node ∈ tree.nodes, ∃ child ∈ node.children,
        ¬ node.fullSpan.contains child.fullSpan) ∧
      ∃ node ∈ tree.nodes, ¬ node.children.IsChain fun child next =>
        child.fullSpan.stop ≤ next.fullSpan.start := by
  have heval : (ofCalls [.start .compilationUnit, .lead .whitespace " ", .start .block, .finish,
        .start .expressionStatement, .token .identifier "x", .lead .whitespace " ",
        .start .expression, .finish, .finish, .token .endOfFile "",
        .finish]).toOption.map (fun tree =>
      (decide (∃ node ∈ tree.root.preorder, ∃ child ∈ node.children,
        ¬ node.fullSpan.contains child.fullSpan),
      decide (∃ node ∈ tree.root.preorder, ¬ node.children.IsChain fun child next =>
        child.fullSpan.stop ≤ next.fullSpan.start))) = some (true, true) := by
    decide +kernel
  obtain ⟨tree, htree, hboth⟩ := Option.map_eq_some_iff.mp heval
  obtain ⟨hcontains, hordered⟩ := Prod.mk.inj hboth
  refine ⟨tree, eq_ok_of_toOption htree, ?_⟩
  rw [nodes_eq]
  exact ⟨of_decide_eq_true hcontains, of_decide_eq_true hordered⟩

end Tree
end SpacingLint
