import Mathlib.Data.List.Forall2
import SpacingLint.Proofs.Tree.Ends

/-! # How far a node reaches

Below a node there are tokens, or there are none.  If there are, the node reaches from the
first of them to the last, and its full span takes in the trivia in front of the first and
behind the last (`Extent.ends_of_laid`).  If there are none, the node has no width, and the
only thing it can tell is where it was started.

Which call that was shows in the order of the calls.  A node is opened inside the one opened
last, so nodes are opened in the order in which a pre-order lists them: the first nodes opened
by some calls are those of the tree, each node with the opening at its place in the list
(`Builder.Traces`).  Nodes of a second root, which is refused, come after all of them.
-/
namespace SpacingLint

/-! ## Nodes with tokens -/

/-- Tokens that stand together among tokens laid end to end are laid end to end. -/
theorem Laid.of_isInfix {offset : Nat} {tokens all : List Token}
    (h : Laid offset (Token.allChunks all)) (hpart : tokens <:+: all) :
    ∃ offset, Laid offset (Token.allChunks tokens) := by
  obtain ⟨before, after, rfl⟩ := hpart
  simp only [Token.allChunks, List.flatMap_append] at h
  exact ⟨_, (laid_append.mp (laid_append.mp h).1).2⟩

/-- **From the first token to the last**: the ends of the extent of tokens laid end to end. -/
theorem Extent.ends_of_laid {offset : Nat} {tokens : List Token} {extent : Extent}
    (h : Laid offset (Token.allChunks tokens)) (hextent : ofTokens tokens = some extent)
    {first last : Token} (hfirst : tokens.head? = some first)
    (hlast : tokens.getLast? = some last) :
    extent.ends =
      ⟨first.span.start, last.span.stop, first.fullSpan.start, last.fullSpan.stop⟩ := by
  induction tokens generalizing offset extent first with
  | nil => cases hfirst
  | cons token rest ih =>
    obtain rfl := Option.some.inj hfirst
    cases rest with
    | nil =>
      obtain rfl := Option.some.inj hlast
      obtain rfl := Option.some.inj hextent
      rfl
    | cons second more =>
      obtain ⟨later, hlater⟩ := Option.ne_none_iff_exists'.mp
        (mt ofTokens_eq_none_iff.mp (List.cons_ne_nil second more))
      rw [← List.singleton_append, ofTokens_append, hlater] at hextent
      obtain rfl := Option.some.inj hextent
      have hends := ih (laid_append.mp h).2 hlater rfl (by simpa using hlast)
      have hlaid : Laid offset (Token.allChunks ([token] ++ second :: more)) := h
      rw [ends_join hlaid hlater, hends]
      rfl

/-! ## The openings of nodes -/

theorem forall₂_append_left_iff {α β : Type} {R : α → β → Prop} {as more : List α} {bs : List β} :
    List.Forall₂ R (as ++ more) bs ↔
      ∃ front back, bs = front ++ back ∧ List.Forall₂ R as front ∧ List.Forall₂ R more back := by
  constructor
  · intro h
    refine ⟨bs.take as.length, bs.drop as.length, (List.take_append_drop ..).symm, ?_, ?_⟩
    · simpa using List.forall₂_take as.length h
    · simpa using List.forall₂_drop as.length h
  · rintro ⟨front, back, rfl, hfront, hback⟩
    exact List.rel_append hfront hback

/-- A call that opens a node. -/
structure Opening where
  /-- What the node is. -/
  kind : Kind
  /-- How long the text was at that time. -/
  length : Nat
deriving DecidableEq

/-- A node can be the one that was opened by a call: it is of the kind opened, and if no token
was written below it, it stands where the text ended at that time. -/
def Node.OpenedBy (node : Node) (opening : Opening) : Prop :=
  node.kind = opening.kind ∧
    (node.tokens = [] →
      node.span = Span.caret opening.length ∧ node.fullSpan = Span.caret opening.length)

namespace Frame

variable {limit : Nat} {frame : Frame} {opening : Opening}

theorem openedBy_fresh (kind : Kind) (offset : Nat) :
    (Frame.mk kind offset [] none).close.OpenedBy ⟨kind, offset⟩ :=
  ⟨rfl, fun _ => ⟨rfl, rfl⟩⟩

/-- A node with a token may have been opened anywhere. -/
theorem openedBy_of_ne_nil {larger : Frame} (h : frame.close.OpenedBy opening)
    (hkind : larger.kind = frame.kind) (hne : larger.tokens ≠ []) :
    larger.close.OpenedBy opening :=
  ⟨hkind.trans h.1, fun hnil => absurd hnil hne⟩

theorem openedBy_adopt {child : Frame} (h : frame.close.OpenedBy opening)
    (hchild : child.Sound limit) : (frame.adopt child).close.OpenedBy opening := by
  refine ⟨h.1, fun hnil => ?_⟩
  rw [tokens_close, tokens_adopt, List.append_eq_nil_iff] at hnil
  -- A child without tokens leaves the extent as it is.
  have hextent : child.extent = none := by
    rw [hchild.extent_eq, hnil.2, Extent.ofTokens_nil]
  have hspans := h.2 hnil.1
  simpa [close, adopt, hextent, Node.span, Node.fullSpan] using hspans

end Frame

namespace Builder

/-- What a call opens. -/
def openedBy (b : Builder) : Call → List Opening
  | .start kind => [⟨kind, b.length⟩]
  | _ => []

/-- The nodes that some calls open, each with the length of the text at that time. -/
def openings (b : Builder) : List Call → List Opening
  | [] => []
  | c :: rest => b.openedBy c ++ (b.next c).openings rest

/-- The open nodes and all finished below them, as a pre-order would list them if they were
closed now. -/
def unfinished (frames : List Frame) : List Node :=
  frames.reverse.flatMap fun frame => frame.close.preorder

@[simp] theorem unfinished_cons (frame : Frame) (outer : List Frame) :
    unfinished (frame :: outer) =
      unfinished outer ++ frame.close :: Element.preorders frame.children := by
  rw [unfinished, List.reverse_cons, List.flatMap_append, List.flatMap_singleton]
  rfl

/-- **Openings trace a builder**: those of the finished root come first, those of the open nodes
come last, and all that lie between are of roots that were refused. -/
def Traces (openings : List Opening) (b : Builder) : Prop :=
  ∃ finished lost current, openings = finished ++ (lost ++ current) ∧
    List.Forall₂ Node.OpenedBy (b.root.elim [] Node.preorder) finished ∧
    List.Forall₂ Node.OpenedBy (unfinished b.frames) current ∧ (b.root = none → lost = [])

theorem traces_empty : Traces [] empty := ⟨[], [], [], rfl, .nil, .nil, fun _ => rfl⟩

variable {b after : Builder} {earlier : List Token} {openings : List Opening} {c : Call}

/-- Openings of the innermost open node and of what is below it stand at the end. -/
theorem traces_cons_iff {frame : Frame} {outer : List Frame} {current : List Opening} :
    List.Forall₂ Node.OpenedBy (unfinished (frame :: outer)) current ↔
      ∃ around own below, current = around ++ own :: below ∧
        List.Forall₂ Node.OpenedBy (unfinished outer) around ∧ frame.close.OpenedBy own ∧
        List.Forall₂ Node.OpenedBy (Element.preorders frame.children) below := by
  rw [unfinished_cons, forall₂_append_left_iff]
  constructor
  · rintro ⟨around, inner, rfl, haround, hinner⟩
    obtain ⟨own, below, hown, hbelow, rfl⟩ := List.forall₂_cons_left_iff.mp hinner
    exact ⟨around, own, below, rfl, haround, hown, hbelow⟩
  · rintro ⟨around, own, below, rfl, haround, hown, hbelow⟩
    exact ⟨around, own :: below, rfl, haround, .cons hown hbelow⟩

/-- A change of the innermost open node that leaves it the same nodes keeps its openings. -/
theorem traces_replace {frame larger : Frame} {outer : List Frame} {current : List Opening}
    (h : List.Forall₂ Node.OpenedBy (unfinished (frame :: outer)) current)
    (hkind : larger.kind = frame.kind) (hne : larger.tokens ≠ [])
    (hbelow : Element.preorders larger.children = Element.preorders frame.children) :
    List.Forall₂ Node.OpenedBy (unfinished (larger :: outer)) current := by
  obtain ⟨around, own, below, rfl, haround, hown, hnodes⟩ := traces_cons_iff.mp h
  exact traces_cons_iff.mpr
    ⟨around, own, below, rfl, haround, Frame.openedBy_of_ne_nil hown hkind hne, hbelow ▸ hnodes⟩

/-- An accepted call opens one more node, or none. -/
theorem Traces.step (h : Traces openings b) (hsound : b.Sound earlier) (hc : Accepted b c after) :
    Traces (openings ++ b.openedBy c) after := by
  obtain ⟨finished, lost, current, rfl, hfinished, hcurrent, hlost⟩ := h
  cases hc with
  | start kind =>
    refine ⟨finished, lost, current ++ [⟨kind, b.length⟩], by simp [openedBy], hfinished, ?_, hlost⟩
    exact traces_cons_iff.mpr
      ⟨current, _, [], rfl, hcurrent, Frame.openedBy_fresh kind b.length, .nil⟩
  | @adopt child parent outer hframes =>
    refine ⟨finished, lost, current, by simp [openedBy], hfinished, ?_, hlost⟩
    rw [hframes] at hcurrent
    obtain ⟨_, inner, below, rfl, hparent, hinner, hbelow⟩ := traces_cons_iff.mp hcurrent
    obtain ⟨around, own, before, rfl, haround, hown, hbefore⟩ := traces_cons_iff.mp hparent
    -- The node that is closed comes last below the one around it.
    refine traces_cons_iff.mpr ⟨around, own, before ++ inner :: below, by simp, haround,
      Frame.openedBy_adopt hown (hsound.frames child (by simp [hframes])), ?_⟩
    rw [Frame.children_adopt, Element.preorders_append]
    refine forall₂_append_left_iff.mpr ⟨before, inner :: below, rfl, hbefore, ?_⟩
    simpa [Element.preorders] using .cons hinner hbelow
  | @root frame hframes hroot =>
    rw [hroot] at hfinished
    rw [hframes] at hcurrent
    obtain rfl := List.forall₂_nil_left_iff.mp hfinished
    obtain rfl := hlost hroot
    exact ⟨current, [], [], by simp [openedBy], by simpa [unfinished] using hcurrent, .nil,
      fun _ => rfl⟩
  | lead kind text =>
    exact ⟨finished, lost, current, by simp [openedBy], hfinished, hcurrent, hlost⟩
  | @token kind text frame outer hframes =>
    refine ⟨finished, lost, current, by simp [openedBy], hfinished, ?_, hlost⟩
    rw [hframes] at hcurrent
    exact traces_replace hcurrent rfl (by simp) (by simp [Element.preorders])
  | @trail kind text frame last older outer hafter hframes hnewest =>
    refine ⟨finished, lost, current, by simp [openedBy], hfinished, ?_, hlost⟩
    rw [hframes] at hcurrent
    refine traces_replace hcurrent rfl (by simp [Frame.tokens_trail]) ?_
    simp [Frame.trail, Frame.children, hnewest, Element.preorders]

/-- **Openings go on tracing a builder** after any call, accepted or refused. -/
theorem Traces.next (h : Traces openings b) (hsound : b.Sound earlier) (c : Call) :
    Traces (openings ++ b.openedBy c) (b.next c) := by
  rcases b.next_cases c with ⟨-, haccepted⟩ | ⟨error, -, hrefused⟩
  · exact h.step hsound haccepted
  · generalize b.next c = after at hrefused ⊢
    cases hrefused with
    | @second frame root hframes hroot =>
      obtain ⟨finished, lost, current, rfl, hfinished, -, -⟩ := h
      refine ⟨finished, lost ++ current, [], by simp [openedBy], hfinished, .nil, fun hnone => ?_⟩
      cases hroot.symm.trans hnone
    | unmatched | orphan | untrailed =>
      simp only [openedBy, List.append_nil]
      exact h

/-- Openings trace a builder after any calls. -/
theorem Traces.replies (h : Traces openings b) (hsound : b.Sound earlier) (calls : List Call) :
    Traces (openings ++ b.openings calls) (b.replies calls).2 := by
  induction calls generalizing b earlier openings with
  | nil =>
    rw [Builder.openings, List.append_nil]
    exact h
  | cons c rest ih =>
    rw [replies_cons, Builder.openings, ← List.append_assoc]
    exact ih (h.next hsound c) (hsound.next c)

end Builder

/-! ## The nodes of a tree -/

namespace Tree

/-- **A node with tokens reaches from the first to the last of them.** -/
theorem LaidBefore.ends_of_mem {tree : Tree} {lost : List Token} (h : tree.LaidBefore lost)
    {node : Node} (hnode : node ∈ tree.nodes) {first last : Token}
    (hfirst : node.tokens.head? = some first) (hlast : node.tokens.getLast? = some last) :
    node.span.start = first.span.start ∧ node.span.stop = last.span.stop ∧
      node.fullSpan.start = first.fullSpan.start ∧ node.fullSpan.stop = last.fullSpan.stop := by
  have hfits := h.fits node hnode
  rw [nodes_eq] at hnode
  have hpart : node.tokens <:+: tree.tokens ++ lost :=
    (tree.root.tokens_isInfix hnode).trans (List.prefix_append ..).isInfix
  obtain ⟨offset, hlaid⟩ := h.laid.of_isInfix hpart
  unfold Node.Fits at hfits
  split at hfits
  · next extent hextent =>
    have hends := Extent.ends_of_laid hlaid hextent hfirst hlast
    obtain ⟨hstart, hstop, hfullStart, hfullStop⟩ := Ends.mk.inj hends
    rw [hfits.1, hfits.2]
    exact ⟨hstart, hstop, hfullStart, hfullStop⟩
  · next hnone =>
    rw [Extent.ofTokens_eq_none_iff.mp hnone] at hfirst
    cases hfirst

/-- The nodes of a tree are those that were opened first. -/
theorem openedBy_of_replies {calls : List Builder.Call} {tree : Tree}
    (h : (Builder.empty.replies calls).2.finish = .ok tree) :
    List.Forall₂ Node.OpenedBy tree.nodes
      ((Builder.empty.openings calls).take tree.nodes.length) := by
  obtain ⟨finished, lost, current, heq, hfinished, -, -⟩ :=
    Builder.traces_empty.replies Builder.sound_empty calls
  obtain ⟨-, -, hroot, -⟩ := Builder.finish_eq_ok h
  rw [hroot, Option.elim_some] at hfinished
  rw [List.nil_append] at heq
  rw [nodes_eq, heq, hfinished.length_eq, List.take_left]
  exact hfinished

/-- **How far the nodes of a tree reach.**  Whatever calls a tree comes out of, each of its
nodes that has tokens reaches from the first to the last of them, with or without trivia.  Its
nodes, in pre-order, are the ones opened first, and one without tokens has no width and stands
where the text ended when it was opened. -/
theorem nodes_of_replies {calls : List Builder.Call} {tree : Tree}
    (h : (Builder.empty.replies calls).2.finish = .ok tree) :
    (∀ node ∈ tree.nodes, ∀ first last, node.tokens.head? = some first →
      node.tokens.getLast? = some last →
      node.span.start = first.span.start ∧ node.span.stop = last.span.stop ∧
        node.fullSpan.start = first.fullSpan.start ∧
        node.fullSpan.stop = last.fullSpan.stop) ∧
      List.Forall₂ Node.OpenedBy tree.nodes
        ((Builder.empty.openings calls).take tree.nodes.length) :=
  ⟨fun _ hnode _ _ => (laidBefore_of_replies h).ends_of_mem hnode, openedBy_of_replies h⟩

/-- Two nodes without tokens, one of them behind trivia that leads a token of another node, and
a second root that is refused. -/
theorem nodes_of_replies_carets : ∃ tree,
    (Builder.empty.replies [.lead .whitespace " ", .start .compilationUnit, .start .block, .finish,
        .token .identifier "ab", .lead .whitespace "\t", .start .expression, .finish,
        .start .block, .token .identifier "c", .finish, .finish,
        .start .elseClause, .finish]).2.finish = .ok tree ∧
      List.Forall₂ Node.OpenedBy tree.nodes
        [⟨.compilationUnit, 1⟩, ⟨.block, 1⟩, ⟨.expression, 4⟩, ⟨.block, 4⟩] ∧
      tree.root.span.start = 1 ∧ tree.root.span.stop = 5 ∧
      tree.root.fullSpan.start = 0 ∧ tree.root.fullSpan.stop = 5 := by
  have heval : (Builder.empty.replies [.lead .whitespace " ", .start .compilationUnit,
        .start .block, .finish, .token .identifier "ab", .lead .whitespace "\t", .start .expression, .finish,
        .start .block, .token .identifier "c", .finish, .finish,
        .start .elseClause, .finish]).2.finish.toOption.map (fun tree =>
          (tree.root.size, tree.root.tokens.head?.map fun token =>
              (token.span.start, token.fullSpan.start),
            tree.root.tokens.getLast?.map fun token => (token.span.stop, token.fullSpan.stop))) =
      some (4, some (1, 0), some (5, 5)) := by
    decide +kernel
  obtain ⟨tree, htree, hvalues⟩ := Option.map_eq_some_iff.mp heval
  obtain ⟨hsize, hboth⟩ := Prod.mk.inj hvalues
  obtain ⟨hfirst, hlast⟩ := Prod.mk.inj hboth
  obtain ⟨first, hhead, hstarts⟩ := Option.map_eq_some_iff.mp hfirst
  obtain ⟨last, hback, hstops⟩ := Option.map_eq_some_iff.mp hlast
  obtain ⟨hstart, hfullStart⟩ := Prod.mk.inj hstarts
  obtain ⟨hstop, hfullStop⟩ := Prod.mk.inj hstops
  obtain ⟨hends, hopened⟩ := nodes_of_replies (eq_ok_of_toOption htree)
  have hroot : tree.root ∈ tree.nodes := by
    rw [nodes_eq, Node.preorder_eq]
    exact List.mem_cons_self ..
  obtain ⟨hspan, hspanStop, hfull, hfullEnd⟩ := hends _ hroot first last hhead hback
  refine ⟨tree, eq_ok_of_toOption htree, ?_, hspan.trans hstart, hspanStop.trans hstop,
    hfull.trans hfullStart, hfullEnd.trans hfullStop⟩
  rw [nodes_eq, Node.length_preorder, hsize] at hopened
  rw [nodes_eq]
  exact hopened

end Tree
end SpacingLint
