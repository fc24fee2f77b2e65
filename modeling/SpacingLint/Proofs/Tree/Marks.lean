import SpacingLint.Proofs.Tree.Extents

/-! # What a tree shows of the order it was built in

The **marks** of a tree are its tokens, and the offsets of its nodes without tokens.  In the
order of the tree each mark stops before the text of the next one begins (`Builder.Ordered`).
Not so its trivia: trivia is queued before its token, and a node may be started in between.

A list of marks is followed with two offsets in hand, where the last token stopped and where
the last mark did (`Place`).  Of the marks of a tree, each can come where it stands
(`flows_of_laid`): a token begins, trivia included, where the last token stopped, and no text
and no node stands before the last mark.
-/
namespace SpacingLint

/-! ## Marks -/

/-- What a tree shows of the order in which it was built. -/
inductive Mark where
  /-- A token. -/
  | token (token : Token)
  /-- The offset of a node without tokens. -/
  | caret (offset : Nat)

namespace Mark

/-- The mark as a token. -/
def token? : Mark → Option Token
  | token t => some t
  | caret _ => none

/-- Where the text of a mark begins.  The trivia before it does not count. -/
def entry : Mark → Nat
  | token t => t.span.start
  | caret offset => offset

/-- Where a mark stops, with the trivia behind it. -/
def stop : Mark → Nat
  | token t => t.fullSpan.stop
  | caret offset => offset

/-- Some marks in order: each stops before the text of any later one begins. -/
def InOrder (marks : List Mark) : Prop :=
  marks.Pairwise fun mark later => mark.stop ≤ later.entry

end Mark

mutual

/-- The marks of a node. -/
def Node.marks : Node → List Mark
  | .mk _ _ fullSpan children =>
    (if Element.tokens children = [] then [.caret fullSpan.start] else []) ++
      Element.marks children

/-- The marks of some children, one after the other. -/
def Element.marks : List Element → List Mark
  | [] => []
  | .token t :: rest => .token t :: Element.marks rest
  | .node n :: rest => n.marks ++ Element.marks rest

end

theorem Node.marks_of_bare {node : Node} (h : node.tokens = []) :
    node.marks = .caret node.fullSpan.start :: Element.marks node.children := by
  cases node with
  | mk kind span fullSpan children => exact congrArg (· ++ Element.marks children) (if_pos h)

theorem Node.marks_of_held {node : Node} (h : node.tokens ≠ []) :
    node.marks = Element.marks node.children := by
  cases node with
  | mk kind span fullSpan children => exact congrArg (· ++ Element.marks children) (if_neg h)

@[simp] theorem Element.marks_append (children more : List Element) :
    marks (children ++ more) = marks children ++ marks more := by
  induction children with
  | nil => rfl
  | cons child rest ih => cases child <;> simp [marks, ih]

mutual

/-- The tokens among the marks of a node are its tokens. -/
theorem Node.filterMap_marks : (node : Node) → node.marks.filterMap Mark.token? = node.tokens
  | .mk _ _ _ children => by
    rw [Node.marks, List.filterMap_append, Element.filterMap_marks children, Node.tokens]
    split <;> rfl

theorem Element.filterMap_marks : (children : List Element) →
    (Element.marks children).filterMap Mark.token? = Element.tokens children
  | [] => rfl
  | .token t :: rest => by
    rw [Element.marks, Element.tokens, ← Element.filterMap_marks rest]
    rfl
  | .node n :: rest => by
    rw [Element.marks, List.filterMap_append, n.filterMap_marks, Element.filterMap_marks rest]
    rfl

end

/-! ## The marks of a builder -/

namespace Frame

theorem marks_close (frame : Frame) :
    frame.close.marks = (if frame.tokens = [] then [.caret frame.close.fullSpan.start] else []) ++
      Element.marks frame.children := rfl

theorem marks_addToken (frame : Frame) (token : Token) :
    (frame.addToken token).close.marks = Element.marks frame.children ++ [.token token] := by
  simp [marks_close, Element.marks]

theorem marks_of_newest {frame : Frame} {last : Token} {older : List Element}
    (h : frame.newest = .token last :: older) :
    frame.close.marks = Element.marks older.reverse ++ [.token last] := by
  simp [marks_close, tokens_of_newest h, children, h, Element.marks]

/-- A node loses its own mark when it takes the first token in. -/
theorem marks_children_sublist (frame : Frame) :
    (Element.marks frame.children).Sublist frame.close.marks :=
  List.sublist_append_right ..

/-- A node that takes another one in shows no marks but theirs. -/
theorem marks_adopt_sublist (frame : Frame) {limit : Nat} {child : Frame} (hchild : child.Sound limit) :
    (frame.adopt child).close.marks.Sublist (frame.close.marks ++ child.close.marks) := by
  rw [marks_close, marks_close, children_adopt, Element.marks_append, tokens_adopt,
    List.append_assoc]
  refine List.Sublist.append ?_ (by simp [Element.marks])
  by_cases hnil : frame.tokens ++ child.tokens = []
  · obtain ⟨hframe, htokens⟩ := List.append_eq_nil_iff.mp hnil
    -- A child without tokens leaves the extent as it is.
    have hextent : child.extent = none := by
      rw [hchild.extent_eq, htokens, Extent.ofTokens_nil]
    have hstart : (frame.adopt child).close.fullSpan = frame.close.fullSpan := by
      simp [close, adopt, hextent, Node.fullSpan]
    rw [if_pos hnil, if_pos hframe, hstart]
  · rw [if_neg hnil]
    exact List.nil_sublist _

end Frame

namespace Builder

/-- The marks of the open nodes, as if they were closed now. -/
def openMarks (frames : List Frame) : List Mark :=
  frames.reverse.flatMap fun frame => frame.close.marks

@[simp] theorem openMarks_cons (frame : Frame) (outer : List Frame) :
    openMarks (frame :: outer) = openMarks outer ++ frame.close.marks := by
  simp [openMarks]

/-- The marks of the finished root and then of the open nodes. -/
def marks (b : Builder) : List Mark := b.root.elim [] Node.marks ++ openMarks b.frames

/-- **A builder with its marks in order**, all of them within the text. -/
structure Ordered (b : Builder) : Prop where
  inOrder : Mark.InOrder b.marks
  stop_le : ∀ mark ∈ b.marks, mark.stop ≤ b.length

theorem ordered_empty : Ordered empty := ⟨.nil, nofun⟩

variable {b after : Builder} {earlier : List Token} {c : Call}

namespace Ordered

/-- Marks may get lost. -/
theorem of_sublist (h : b.Ordered) (hmarks : after.marks.Sublist b.marks)
    (hle : b.length ≤ after.length) : after.Ordered :=
  ⟨h.inOrder.sublist hmarks, fun mark hmark =>
    Nat.le_trans (h.stop_le mark (hmarks.subset hmark)) hle⟩

/-- A mark may be set behind those that are kept. -/
theorem concat (h : b.Ordered) {kept : List Mark} (mark : Mark) (hkept : kept.Sublist b.marks)
    (hmarks : after.marks = kept ++ [mark]) (hentry : ∀ other ∈ kept, other.stop ≤ mark.entry)
    (hstop : mark.stop ≤ after.length) (hle : b.length ≤ after.length) : after.Ordered := by
  refine ⟨?_, fun other hother => ?_⟩
  · rw [hmarks]
    refine List.pairwise_append.mpr ⟨h.inOrder.sublist hkept, List.pairwise_singleton .., ?_⟩
    intro other hother last hlast
    obtain rfl := List.mem_singleton.mp hlast
    exact hentry other hother
  · rw [hmarks] at hother
    rcases List.mem_append.mp hother with hother | hother
    · exact Nat.le_trans (h.stop_le other (hkept.subset hother)) hle
    · obtain rfl := List.mem_singleton.mp hother
      exact hstop

/-- An accepted call keeps the marks in order. -/
theorem step (h : b.Ordered) (hsound : b.Sound earlier) (hc : Accepted b c after) :
    after.Ordered := by
  have hle := hc.length_le
  cases hc with
  | start kind =>
    have hmark : (Frame.close ⟨kind, b.length, [], none⟩).marks = [.caret b.length] := rfl
    exact h.concat (.caret b.length) (List.Sublist.refl _) (by simp [marks, hmark])
      h.stop_le (Nat.le_refl _) hle
  | @adopt child parent outer hframes =>
    refine h.of_sublist ?_ hle
    have hadopt := parent.marks_adopt_sublist (hsound.frames child (by simp [hframes]))
    simpa [marks, hframes] using hadopt
  | @root frame hframes hroot =>
    exact h.of_sublist (by simp [marks, hframes, hroot, openMarks]) hle
  | lead kind text => exact h.of_sublist (List.Sublist.refl _) hle
  | @token kind text frame outer hframes =>
    obtain ⟨-, hstop, -⟩ := hsound.ends_addToken kind text hframes
    have hkept : (b.root.elim [] Node.marks ++ (openMarks outer ++
        Element.marks frame.children)).Sublist b.marks := by
      simpa [marks, hframes] using frame.marks_children_sublist
    refine h.concat (.token ⟨kind, text, b.nextSpan text, b.pending, []⟩) hkept
      (by simp [marks, Frame.marks_addToken])
      (fun other hother => h.stop_le other (hkept.subset hother)) ?_ hle
    rw [Mark.stop, hstop, length, String.utf8ByteSize_append]
    exact Nat.le_refl _
  | @trail kind text frame last older outer hafter hframes hnewest =>
    obtain ⟨offset, hlaid⟩ := hsound.laid_last hafter hframes hnewest text
    have hfull := Token.fullSpan_trailedBy ⟨kind, text, b.nextSpan text⟩ hlaid
    have hmarks : b.marks = (b.root.elim [] Node.marks ++ (openMarks outer ++
        Element.marks older.reverse)) ++ [.token last] := by
      simp [marks, hframes, Frame.marks_of_newest hnewest]
    obtain ⟨-, -, hbefore⟩ := List.pairwise_append.mp (hmarks ▸ h.inOrder)
    have hlast : last.fullSpan.stop ≤ b.length := h.stop_le (.token last) (by simp [hmarks])
    refine h.concat (.token (last.trailedBy ⟨kind, text, b.nextSpan text⟩))
      (hmarks ▸ List.sublist_append_left ..)
      (by simp [marks, Frame.marks_of_newest (rfl : (frame.trail last older _).newest = _)])
      (fun other hother => hbefore other hother (.token last) (List.mem_singleton_self _)) ?_ hle
    rw [Mark.stop, hfull, Span.hull_stop]
    refine Nat.max_le.mpr ⟨Nat.le_trans hlast hle, ?_⟩
    rw [length, String.utf8ByteSize_append]
    exact Nat.le_refl _

/-- **Any call keeps the marks in order**, accepted or refused. -/
theorem next (h : b.Ordered) (hsound : b.Sound earlier) (c : Call) : (b.next c).Ordered := by
  rcases b.next_cases c with ⟨-, haccepted⟩ | ⟨error, -, hrefused⟩
  · exact h.step hsound haccepted
  · generalize b.next c = after at hrefused ⊢
    cases hrefused with
    | second hframes hroot => exact h.of_sublist (by simp [marks, openMarks]) (Nat.le_refl _)
    | unmatched | orphan | untrailed => exact ⟨h.inOrder, h.stop_le⟩

/-- Any calls keep the marks in order. -/
theorem replies (h : b.Ordered) (hsound : b.Sound earlier) (calls : List Call) :
    (b.replies calls).2.Ordered := by
  induction calls generalizing b earlier with
  | nil => exact h
  | cons c rest ih =>
    rw [replies_cons]
    exact ih (h.next hsound c) (hsound.next c)

end Ordered
end Builder

/-! ## Following marks -/

/-- How far some marks have led. -/
structure Place where
  /-- Where the last token stopped. -/
  seam : Nat
  /-- Where the last mark stopped. -/
  reached : Nat

namespace Place

/-- The place behind a mark. -/
def pass (place : Place) : Mark → Place
  | .token t => ⟨t.fullSpan.stop, t.fullSpan.stop⟩
  | .caret offset => ⟨place.seam, offset⟩

/-- The place behind some marks. -/
def after (place : Place) (marks : List Mark) : Place := marks.foldl pass place

@[simp] theorem after_nil (place : Place) : place.after [] = place := rfl

@[simp] theorem after_cons (place : Place) (mark : Mark) (rest : List Mark) :
    place.after (mark :: rest) = (place.pass mark).after rest := rfl

@[simp] theorem after_append (place : Place) (marks more : List Mark) :
    place.after (marks ++ more) = (place.after marks).after more :=
  List.foldl_append

/-- Each of some marks stands to the place before it in a relation. -/
def Along (relation : Place → Mark → Prop) : Place → List Mark → Prop
  | _, [] => True
  | place, mark :: rest => relation place mark ∧ Along relation (place.pass mark) rest

theorem along_append {relation : Place → Mark → Prop} {place : Place} {marks more : List Mark} :
    Along relation place (marks ++ more) ↔
      Along relation place marks ∧ Along relation (place.after marks) more := by
  induction marks generalizing place with
  | nil => exact (and_iff_right trivial).symm
  | cons mark rest ih => simp only [List.cons_append, Along, ih, after_cons, and_assoc]

instance decidableAlong {relation : Place → Mark → Prop}
    [∀ place mark, Decidable (relation place mark)] :
    (place : Place) → (marks : List Mark) → Decidable (Along relation place marks)
  | _, [] => .isTrue trivial
  | place, mark :: rest =>
    have : Decidable (Along relation (place.pass mark) rest) := decidableAlong _ rest
    inferInstanceAs (Decidable (relation place mark ∧ Along relation (place.pass mark) rest))

end Place

namespace Mark

/-- A mark can come next: a token begins, trivia included, where the last one stopped; and no
mark begins before the last one stopped. -/
def Follows (place : Place) : Mark → Prop
  | token t => t.fullSpan.start = place.seam ∧ place.reached ≤ t.span.start
  | caret offset => place.seam ≤ offset ∧ place.reached ≤ offset

/-- A node without tokens stands where the last token stopped. -/
def Settled (place : Place) : Mark → Prop
  | token _ => True
  | caret offset => offset = place.seam

instance (place : Place) : (mark : Mark) → Decidable (mark.Settled place)
  | token _ => .isTrue trivial
  | caret offset => inferInstanceAs (Decidable (offset = place.seam))

end Mark

/-- Some marks can come one after the other. -/
abbrev Flows : Place → List Mark → Prop := Place.Along Mark.Follows

/-- Every node without tokens stands where the token before it stops. -/
abbrev Settles : Place → List Mark → Prop := Place.Along Mark.Settled

/-- Marks in order come one after the other if their tokens stand end to end. -/
theorem flows_of_laid {place : Place} {marks : List Mark}
    (hlaid : Laid place.seam (Token.allChunks (marks.filterMap Mark.token?)))
    (horder : Mark.InOrder marks) (hle : place.seam ≤ place.reached)
    (hentry : ∀ mark ∈ marks, place.reached ≤ mark.entry) : Flows place marks := by
  induction marks generalizing place with
  | nil => trivial
  | cons mark rest ih =>
    obtain ⟨hmark, hrest⟩ := List.pairwise_cons.mp horder
    have hreached := hentry mark (List.mem_cons_self ..)
    cases mark with
    | token t =>
      obtain ⟨htoken, hlaid⟩ := laid_append.mp hlaid
      have hfull := Token.fullSpan_eq htoken
      refine ⟨⟨by rw [hfull, Span.ofSize_start], hreached⟩, ih ?_ hrest (Nat.le_refl _) hmark⟩
      rw [Place.pass, hfull]
      exact hlaid
    | caret offset =>
      have hseam := Nat.le_trans hle hreached
      exact ⟨⟨hseam, hreached⟩, ih hlaid hrest hseam hmark⟩

namespace Flows

variable {place : Place} {marks : List Mark} (h : Flows place marks)

include h

/-- The first token takes up where the last one stopped. -/
theorem head {first : Token} (hfirst : (marks.filterMap Mark.token?).head? = some first) :
    first.fullSpan.start = place.seam ∧ place.reached ≤ first.span.start := by
  induction marks generalizing place with
  | nil => cases hfirst
  | cons mark rest ih =>
    obtain ⟨hmark, hrest⟩ := h
    cases mark with
    | token t =>
      obtain rfl := Option.some.inj hfirst
      exact hmark
    | caret offset =>
      obtain ⟨hstart, hspan⟩ := ih hrest hfirst
      exact ⟨hstart, Nat.le_trans hmark.2 hspan⟩

theorem seam_le : place.seam ≤ (place.after marks).seam := by
  induction marks generalizing place with
  | nil => exact Nat.le_refl _
  | cons mark rest ih =>
    obtain ⟨hmark, hrest⟩ := h
    refine Nat.le_trans ?_ (ih hrest)
    cases mark with
    | token t => exact hmark.1 ▸ t.fullSpan.start_le_stop
    | caret offset => exact Nat.le_refl _

/-- Marks of nodes without tokens leave the seam where it is. -/
theorem bare (hnil : marks.filterMap Mark.token? = []) :
    (place.after marks).seam = place.seam ∧ place.reached ≤ (place.after marks).reached := by
  induction marks generalizing place with
  | nil => exact ⟨rfl, Nat.le_refl _⟩
  | cons mark rest ih =>
    obtain ⟨hmark, hrest⟩ := h
    cases mark with
    | token t => cases hnil
    | caret offset =>
      obtain ⟨hseam, hreached⟩ := ih hrest hnil
      exact ⟨hseam, Nat.le_trans hmark.2 hreached⟩

end Flows

/-- The seam is where the last token stopped. -/
theorem Place.seam_after (place : Place) (marks : List Mark) :
    (place.after marks).seam =
      (marks.filterMap Mark.token?).getLast?.elim place.seam fun last => last.fullSpan.stop := by
  induction marks generalizing place with
  | nil => rfl
  | cons mark rest ih =>
    rw [after_cons, ih]
    cases mark with
    | token t =>
      rw [List.filterMap_cons_some (f := Mark.token?) (b := t) rfl, List.getLast?_cons]
      cases (rest.filterMap Mark.token?).getLast? <;> rfl
    | caret offset => rfl

end SpacingLint
