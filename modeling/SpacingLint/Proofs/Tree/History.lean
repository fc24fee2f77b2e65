import SpacingLint.Proofs.Tree.Fidelity

/-! # Builders that go on after a refusal

A builder can be used further when a call was refused, and the tree that comes out in the
end depends on what the refusal left behind.  Three kinds of refusals leave nothing: the
text, the open nodes and the waiting trivia stay as they are.  The fourth, of a second
root, takes the node away and keeps what was written in it, so the text of the tree goes on
behind its last token.

The tokens of such nodes are the **lost** ones (`Builder.lost`).  They stand behind the
tokens of the root and before those of the open nodes, so a builder stays in order whatever
is refused (`Builder.sound_of_replies`), and the text of a tree is what its own tokens and
then the lost ones are made of (`Tree.LaidBefore`).
-/
namespace SpacingLint
namespace Builder

/-! ## Calls and their replies -/

/-- The builder after a call, accepted or refused. -/
def next (b : Builder) (c : Call) : Builder :=
  match call c b with
  | .ok _ after | .error _ after => after

/-- Why a call is refused, if it is. -/
def reply (b : Builder) (c : Call) : Option BuildError :=
  match call c b with
  | .ok _ _ => none
  | .error error _ => some error

theorem replies_cons (b : Builder) (c : Call) (rest : List Call) :
    b.replies (c :: rest) =
      (b.reply c :: ((b.next c).replies rest).1, ((b.next c).replies rest).2) := by
  rw [replies, reply, next]
  cases call c b <;> rfl

/-- What a call does to a builder that refuses it. -/
inductive Refused (b : Builder) : Call → BuildError → Builder → Prop
  /-- No node is open that could be closed. -/
  | unmatched (hframes : b.frames = []) :
      Refused b .finish .unmatchedFinish { b with afterToken := false }
  /-- A second root is closed, and lost. -/
  | second {frame : Frame} {root : Node} (hframes : b.frames = [frame])
      (hroot : b.root = some root) :
      Refused b .finish .multipleRoots { b with frames := [], afterToken := false }
  /-- No node is open that could take the token. -/
  | orphan (kind : Kind) (text : String) (hframes : b.frames = []) :
      Refused b (.token kind text) .tokenWithoutParent b
  /-- No token was written right before the trivia. -/
  | untrailed (kind : TriviaKind) (text : String) :
      Refused b (.trail kind text) .trailingWithoutToken b

/-- Nothing else happens when a call is refused. -/
theorem refused_of_call {b after : Builder} {c : Call} {error : BuildError}
    (h : call c b = .error error after) : Refused b c error after := by
  cases c with
  | start kind => cases h
  | finish =>
    simp only [call, finishNode] at h
    split at h
    · next hframes => cases h; exact .unmatched hframes
    · cases h
    · next hframes =>
      split at h
      · next hroot => cases h; exact .second hframes hroot
      · cases h
  | lead kind text => cases h
  | token kind text =>
    simp only [call, token] at h
    split at h
    · next hframes => cases h; exact .orphan kind text hframes
    · cases h
  | trail kind text =>
    simp only [call, trailingTrivia] at h
    split at h
    · cases h
    · cases h; exact .untrailed kind text

/-- A call is accepted or refused, and there is a reply for each. -/
theorem next_cases (b : Builder) (c : Call) :
    (b.reply c = none ∧ Accepted b c (b.next c)) ∨
      ∃ error, b.reply c = some error ∧ Refused b c error (b.next c) := by
  unfold reply next
  cases hcall : call c b with
  | ok _ after => exact .inl ⟨rfl, accepted_of_call hcall⟩
  | error error after => exact .inr ⟨error, rfl, refused_of_call hcall⟩

/-! ## Lost tokens -/

/-- The tokens that a call takes out of sight: those of a second root. -/
def lostBy (b : Builder) (c : Call) : List Token :=
  if b.reply c = some .multipleRoots then b.frames.flatMap Frame.tokens else []

/-- The tokens lost while some calls are made, in the order in which they stand. -/
def lost (b : Builder) : List Call → List Token
  | [] => []
  | c :: rest => b.lostBy c ++ (b.next c).lost rest

theorem lostBy_eq_nil {b : Builder} {c : Call} (h : b.reply c ≠ some .multipleRoots) :
    b.lostBy c = [] :=
  if_neg h

/-- Nothing is lost unless a second root is refused. -/
theorem lost_eq_nil {b : Builder} {calls : List Call}
    (h : some .multipleRoots ∉ (b.replies calls).1) : b.lost calls = [] := by
  induction calls generalizing b with
  | nil => rfl
  | cons c rest ih =>
    rw [replies_cons] at h
    rw [List.mem_cons, not_or] at h
    obtain ⟨hfirst, hrest⟩ := h
    rw [lost, lostBy_eq_nil (Ne.symm hfirst), ih hrest, List.append_nil]

variable {b : Builder} {earlier : List Token}

/-- **Every call keeps a builder in order**: what it takes away stands right behind the
tokens lost before. -/
theorem Sound.next (h : b.Sound earlier) (c : Call) :
    (b.next c).Sound (earlier ++ b.lostBy c) := by
  rcases b.next_cases c with ⟨hreply, haccepted⟩ | ⟨error, hreply, hrefused⟩
  · rw [lostBy_eq_nil (by simp [hreply]), List.append_nil]
    exact h.step haccepted
  · generalize hafter : b.next c = after at hrefused ⊢
    cases hrefused with
    | unmatched hframes =>
      rw [lostBy_eq_nil (by simp [hreply]), List.append_nil]
      exact { h with pending_nil := fun hafter => Bool.noConfusion hafter }
    | @second frame root hframes hroot =>
      -- The tokens of the open node are lost; they stood behind all others.
      have hchunks : chunks (earlier ++ b.lostBy .finish)
          { b with frames := [], afterToken := false } = b.chunks earlier := by
        simp [chunks, tokens, lostBy, hreply, hframes]
      exact {
        laid := hchunks ▸ h.laid
        text_eq := hchunks ▸ h.text_eq
        frames := fun _ hmem => absurd hmem List.not_mem_nil
        fits := h.fits
        stop_le := h.stop_le
        lost_nil := fun hnone => absurd (hroot.symm.trans hnone) (Option.some_ne_none root)
        pending_nil := fun hafter => Bool.noConfusion hafter }
    | orphan kind text hframes | untrailed kind text =>
      rw [lostBy_eq_nil (by simp [hreply]), List.append_nil]
      exact h

/-- **Any calls keep a builder in order**, whichever of them are refused. -/
theorem sound_of_replies (h : b.Sound earlier) (calls : List Call) :
    (b.replies calls).2.Sound (earlier ++ b.lost calls) := by
  induction calls generalizing b earlier with
  | nil =>
    rw [lost, List.append_nil]
    exact h
  | cons c rest ih =>
    rw [replies_cons, lost, ← List.append_assoc]
    exact ih (h.next c)

end Builder

/-! ## The trees that come out -/

theorem Text.join_eq_empty_iff {texts : List String} :
    String.join texts = "" ↔ ∀ text ∈ texts, text = "" := by
  induction texts with
  | nil => simp
  | cons first rest ih =>
    rw [String.join_cons, String.append_eq_empty_iff, ih, List.forall_mem_cons]

namespace Tree

/-- **What comes out of any calls**: the text holds the tokens of the tree, then those that
were lost on the way. -/
theorem laidBefore_of_replies {calls : List Builder.Call} {tree : Tree}
    (h : (Builder.empty.replies calls).2.finish = .ok tree) :
    tree.LaidBefore (Builder.empty.lost calls) := by
  have hsound := Builder.sound_of_replies Builder.sound_empty calls
  obtain ⟨hframes, hpending, hroot, htext⟩ := Builder.finish_eq_ok h
  have hchunks : (Builder.empty.replies calls).2.chunks (Builder.empty.lost calls) =
      Token.allChunks (tree.tokens ++ Builder.empty.lost calls) := by
    simp [Builder.chunks, Builder.tokens, hframes, hpending, hroot, tokens]
  rw [List.nil_append] at hsound
  refine ⟨?_, hchunks ▸ hsound.laid, ?_⟩
  · rw [← htext, hsound.text_eq, hchunks]
  · rw [nodes_eq]
    exact hsound.fits _ hroot

/-- **What a tree keeps of any calls.**  Its text is what its tokens are made of, followed by
what was lost; its own texts stand where they are said to; and nothing follows exactly when
the lost tokens were empty, so in particular when no second root was refused. -/
theorem text_of_replies {calls : List Builder.Call} {tree : Tree}
    (h : (Builder.empty.replies calls).2.finish = .ok tree) :
    tree.text = String.join (tree.tokens.map Token.fullText) ++
        String.join ((Builder.empty.lost calls).map Token.fullText) ∧
      (∀ token ∈ tree.tokens, tree.slice? token.span = some token.text ∧
        ∀ trivia ∈ token.leading ++ token.trailing,
          tree.slice? trivia.span = some trivia.text) ∧
      (tree.text = String.join (tree.tokens.map Token.fullText) ↔
        ∀ token ∈ Builder.empty.lost calls, token.fullText = "") ∧
      (some .multipleRoots ∉ (Builder.empty.replies calls).1 →
        tree.text = String.join (tree.tokens.map Token.fullText)) := by
  have hlaid := laidBefore_of_replies h
  have htext := hlaid.text_eq_join
  have hexact : tree.text = String.join (tree.tokens.map Token.fullText) ↔
      ∀ token ∈ Builder.empty.lost calls, token.fullText = "" := by
    rw [htext, String.append_eq_left_iff, Text.join_eq_empty_iff, List.forall_mem_map]
  refine ⟨htext, ?_, hexact, fun hnone => hexact.mpr ?_⟩
  · intro token htoken
    exact ⟨hlaid.slice?_token htoken, fun _ htrivia => hlaid.slice?_trivia htoken htrivia⟩
  · rw [Builder.lost_eq_nil hnone]
    nofun

/-- Refused calls of every kind; the second root is lost with its trivia. -/
theorem text_of_replies_second : ∃ tree,
    (Builder.empty.replies [.finish, .token .identifier "x", .start .compilationUnit,
        .trail .whitespace " ", .token .identifier "a", .finish, .start .block,
        .lead .whitespace " ", .token .identifier "b", .finish]).2.finish = .ok tree ∧
      tree.tokens.map Token.fullText = ["a"] ∧ tree.text = "a b" := by
  have hfinish : (Builder.empty.replies [.finish, .token .identifier "x", .start .compilationUnit,
        .trail .whitespace " ", .token .identifier "a", .finish, .start .block,
        .lead .whitespace " ", .token .identifier "b", .finish]).2.finish.toOption.map
      (fun tree => tree.tokens.map Token.fullText) = some ["a"] := by
    decide +kernel
  have hlost : (Builder.empty.lost [.finish, .token .identifier "x", .start .compilationUnit,
        .trail .whitespace " ", .token .identifier "a", .finish, .start .block,
        .lead .whitespace " ", .token .identifier "b", .finish]).map Token.fullText = [" b"] := by
    decide +kernel
  obtain ⟨tree, htree, htokens⟩ := Option.map_eq_some_iff.mp hfinish
  have htext := (text_of_replies (eq_ok_of_toOption htree)).1
  rw [htokens, hlost] at htext
  exact ⟨tree, eq_ok_of_toOption htree, htokens, htext⟩

/-- **A second root leaves its text behind**: the text of this tree is not what its tokens are
made of. -/
theorem text_ne_of_second_root : ∃ tree,
    (Builder.empty.replies [.start .compilationUnit, .finish, .start .compilationUnit,
        .token .identifier "x", .finish]).2.finish = .ok tree ∧
      tree.text ≠ String.join (tree.tokens.map Token.fullText) := by
  have hfinish : (Builder.empty.replies [.start .compilationUnit, .finish,
        .start .compilationUnit, .token .identifier "x", .finish]).2.finish.toOption.map
      (fun tree => (tree.text, tree.tokens.map Token.fullText)) = some ("x", []) := by
    decide +kernel
  obtain ⟨tree, htree, hboth⟩ := Option.map_eq_some_iff.mp hfinish
  obtain ⟨htext, htokens⟩ := Prod.mk.inj hboth
  refine ⟨tree, eq_ok_of_toOption htree, ?_⟩
  rw [htext, htokens]
  decide

end Tree
end SpacingLint
