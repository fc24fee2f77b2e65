import SpacingLint.Proofs.Tree.History

/-! # Extents as bare offsets

The extent of an open node is made of spans, and a span cannot be inverted: taking two
extents together looks for the least start and the greatest stop.  One can do with less.  An
**account** keeps four bare offsets for each open node, takes the first start and the last
stop of what comes together, and makes spans of offsets only where a text is written or a
node is closed.  Nothing in its type keeps the offsets in order, and it breaks down when a
span with its ends out of order is called for (`Builder.reckon`).

It never does.  Tokens are laid end to end, so the first start of some of them is the least
one and the last stop the greatest (`Extent.ends_join`), and what an account holds are at all
times the ends of the extents (`Builder.Sound.reckon_eq`).
-/
namespace SpacingLint

/-- The ends of an extent, as bare offsets. -/
@[ext]
structure Ends where
  /-- Where the first token begins. -/
  start : Nat
  /-- Where the last token stops. -/
  stop : Nat
  /-- Where the trivia before the first token begins. -/
  fullStart : Nat
  /-- Where the trivia behind the last token stops. -/
  fullStop : Nat
deriving DecidableEq

namespace Ends

/-- The ends of what came before, if anything, and what follows: the first start and the last
stop, whatever lies between. -/
def join (before : Option Ends) (next : Ends) : Ends :=
  match before with
  | none => next
  | some first => ⟨first.start, next.stop, first.fullStart, next.fullStop⟩

/-- The extent with these ends; `none` if one of its spans would be inverted. -/
def extent? (ends : Ends) : Option Extent := do
  let span ← Span.between? ends.start ends.stop
  let fullSpan ← Span.between? ends.fullStart ends.fullStop
  return ⟨span, fullSpan⟩

end Ends

/-- The ends of an extent. -/
def Extent.ends (extent : Extent) : Ends :=
  ⟨extent.span.start, extent.span.stop, extent.fullSpan.start, extent.fullSpan.stop⟩

theorem Span.between?_ends (span : Span) : Span.between? span.start span.stop = some span :=
  Span.between?_eq_some_iff.mpr ⟨rfl, rfl⟩

/-- The ends of an extent are in order. -/
@[simp] theorem Ends.extent?_ends (extent : Extent) : extent.ends.extent? = some extent := by
  simp [extent?, Extent.ends, Span.between?_ends]

/-- A node whose ends are those of its extent can be closed. -/
@[simp] theorem Ends.all_isSome_extent? (extent : Option Extent) :
    (extent.map Extent.ends).all (·.extent?.isSome) = true := by
  cases extent <;> simp

/-! ## Tokens laid end to end -/

/-- The full span of a token begins where its first piece does and stops where its last one
does. -/
theorem Token.fullSpan_ends {token : Token} {offset : Nat} (h : Laid offset token.chunks) :
    token.fullSpan.start = (token.leading.head?.elim token.span Trivia.span).start ∧
      token.fullSpan.stop = (token.trailing.getLast?.elim token.span Trivia.span).stop := by
  obtain ⟨_, hfirst⟩ := token.head?_chunks
  obtain ⟨_, hlast⟩ := token.getLast?_chunks
  rw [fullSpan_eq h]
  exact ⟨(h.start_of_head? hfirst).symm, (h.stop_of_getLast? hlast).symm⟩

namespace Extent

/-- Tokens laid end to end lie within their chunks. -/
theorem span_of_laid {offset : Nat} {tokens : List Token} {extent : Extent}
    (h : Laid offset (Token.allChunks tokens)) (hextent : ofTokens tokens = some extent) :
    offset ≤ extent.span.start ∧
      extent.span.stop ≤ offset + Chunk.size (Token.allChunks tokens) := by
  induction tokens generalizing offset extent with
  | nil => cases hextent
  | cons token rest ih =>
    obtain ⟨htoken, hrest⟩ := laid_append.mp h
    rw [← List.singleton_append, ofTokens_append, ofTokens_singleton] at hextent
    have hmem : (token.text, token.span) ∈ token.chunks := by simp [Token.chunks]
    have hstart := htoken.start_ge hmem
    have hstop := htoken.stop_le hmem
    have hsize : Chunk.size (Token.allChunks (token :: rest)) =
        Chunk.size token.chunks + Chunk.size (Token.allChunks rest) :=
      Chunk.size_append ..
    cases hmore : ofTokens rest with
    | none =>
      rw [hmore] at hextent
      cases hextent
      simp only [ofToken] at hstart hstop ⊢
      omega
    | some later =>
      rw [hmore] at hextent
      cases hextent
      obtain ⟨hstartLater, hstopLater⟩ := ih hrest hmore
      simp only [join, ofToken, Span.hull_start, Span.hull_stop] at hstart hstop ⊢
      omega

/-- **First start and last stop**: where tokens are laid end to end, taking extents together
needs no comparison of offsets. -/
theorem ends_join {offset : Nat} {tokens more : List Token} {next : Extent}
    (h : Laid offset (Token.allChunks (tokens ++ more))) (hnext : ofTokens more = some next) :
    (join (ofTokens tokens) next).ends = Ends.join ((ofTokens tokens).map ends) next.ends := by
  cases hbefore : ofTokens tokens with
  | none => rfl
  | some before =>
    rw [Token.allChunks, List.flatMap_append] at h
    obtain ⟨htokens, hmore⟩ := laid_append.mp h
    -- What came before stops at the offset where the rest begins.
    have hspan := (span_of_laid htokens hbefore).2
    have hspanNext := (span_of_laid hmore hnext).1
    have hfull := fullSpan_of_laid htokens hbefore
    have hfullNext := fullSpan_of_laid hmore hnext
    have horder := before.span.start_le_stop
    have horderNext := next.span.start_le_stop
    simp only [Token.allChunks] at hspan hspanNext hfull hfullNext
    simp only [join, ends, Ends.join, Option.map_some, hfull, hfullNext, Ends.mk.injEq,
      Span.hull_start, Span.hull_stop, Span.ofSize_start, Span.ofSize_stop]
    omega

end Extent

namespace Builder

variable {b : Builder} {earlier : List Token}

/-- **Open nodes next to each other**: their tokens stand end to end within the text. -/
theorem Sound.laid_frames (h : b.Sound earlier) (inner middle outer : List Frame)
    (hframes : b.frames = inner ++ middle ++ outer) : ∃ offset,
    Laid offset (Token.allChunks (middle.reverse.flatMap Frame.tokens)) ∧
      offset + Chunk.size (Token.allChunks (middle.reverse.flatMap Frame.tokens)) ≤ b.length := by
  have hchunks : b.chunks earlier =
      Token.allChunks (b.root.elim [] Node.tokens ++ earlier ++
          outer.reverse.flatMap Frame.tokens) ++
        (Token.allChunks (middle.reverse.flatMap Frame.tokens) ++
          (Token.allChunks (inner.reverse.flatMap Frame.tokens) ++
            b.pending.map Trivia.chunk)) := by
    simp [chunks, tokens, hframes, Token.allChunks]
  have hlaid := h.laid
  have hlength := h.length_eq
  rw [hchunks, laid_append, Nat.zero_add, laid_append] at hlaid
  rw [hchunks, Chunk.size_append, Chunk.size_append] at hlength
  exact ⟨_, hlaid.2.1, by omega⟩

/-! ## Accounts -/

/-- The ends of the extents of the open nodes, the one opened last first; `none` for a node
without tokens. -/
abbrev Account := List (Option Ends)

/-- What an account of a builder has to hold. -/
def account (b : Builder) : Account := b.frames.map fun frame => frame.extent.map Extent.ends

/-- The span of a text that is appended, from the lengths of the text before and after. -/
def appended? (b : Builder) (text : String) : Option Span :=
  Span.between? b.length (b.text ++ text).utf8ByteSize

/-- Hands the ends of a closed node to the node around it, if there is one. -/
def handOver (closed : Option Ends) : Account → Account
  | [] => []
  | around :: outer => closed.elim around (fun ends => some (Ends.join around ends)) :: outer

/-- Moves the last stop of the innermost open node. -/
def stopAt (offset : Nat) : Account → Account
  | [] => []
  | own :: outer => own.map (fun ends => { ends with fullStop := offset }) :: outer

/-- The account after a call on a builder; `none` if a span had to be made whose ends are out
of order. -/
def reckon (b : Builder) : Account → Call → Option Account
  | account, .start _ => some (none :: account)
  | [], .finish => some []
  | closed :: rest, .finish =>
    if closed.all (·.extent?.isSome) then some (handOver closed rest) else none
  | account, .lead _ text => do
    let _ ← b.appended? text
    return account
  | [], .token _ _ => some []
  | own :: outer, .token _ text => do
    let span ← b.appended? text
    let fullSpan ← Span.between? (b.pending.head?.elim span Trivia.span).start span.stop
    return some (Ends.join own ⟨span.start, span.stop, fullSpan.start, span.stop⟩) :: outer
  | account, .trail _ text =>
    if b.afterToken then do
      let span ← b.appended? text
      return stopAt span.stop account
    else some account

/-- The account after some calls, refused ones among them. -/
def reckonAll (b : Builder) (account : Account) : List Call → Option Account
  | [] => some account
  | c :: rest => do
    let account ← b.reckon account c
    (b.next c).reckonAll account rest

theorem appended?_eq (b : Builder) (text : String) : b.appended? text = some (b.nextSpan text) :=
  Span.between?_eq_some_iff.mpr ⟨rfl, (String.utf8ByteSize_append ..).symm⟩

/-- A closed node hands its ends over as it hands over its extent. -/
theorem Sound.ends_adopt (h : b.Sound earlier) {child parent : Frame} {outer : List Frame}
    (hframes : b.frames = child :: parent :: outer) :
    (parent.adopt child).extent.map Extent.ends =
      (child.extent.map Extent.ends).elim (parent.extent.map Extent.ends) fun ends =>
        some (Ends.join (parent.extent.map Extent.ends) ends) := by
  obtain ⟨offset, hlaid, -⟩ := h.laid_frames [] [child, parent] outer hframes
  have htokens : [child, parent].reverse.flatMap Frame.tokens = parent.tokens ++ child.tokens := by
    simp
  rw [htokens] at hlaid
  have hparent := (h.frames parent (by simp [hframes])).extent_eq
  have hchild := (h.frames child (by simp [hframes])).extent_eq
  cases hextent : child.extent with
  | none => simp [Frame.adopt, hextent]
  | some extent =>
    rw [hextent] at hchild
    simp only [Frame.adopt, hextent, Option.elim_some, Option.map_some, hparent]
    rw [Extent.ends_join hlaid hchild.symm]

/-- A token that is written adds its ends: it begins with the trivia that leads it. -/
theorem Sound.ends_addToken (h : b.Sound earlier) (kind : Kind) (text : String) {frame : Frame}
    {outer : List Frame} (hframes : b.frames = frame :: outer) :
    let written : Token := ⟨kind, text, b.nextSpan text, b.pending, []⟩
    let front := b.pending.head?.elim (b.nextSpan text) Trivia.span
    written.fullSpan.start = front.start ∧ written.fullSpan.stop = (b.nextSpan text).stop ∧
      (frame.addToken written).extent.map Extent.ends =
        some (Ends.join (frame.extent.map Extent.ends)
          ⟨(b.nextSpan text).start, (b.nextSpan text).stop, front.start,
            (b.nextSpan text).stop⟩) := by
  intro written front
  -- The pieces of the builder that has accepted the token end with those of the token.
  obtain ⟨offset, hlaid, -⟩ := (h.step (.token kind text hframes)).laid_frames
    [] [frame.addToken written] outer rfl
  have htokens : [frame.addToken written].reverse.flatMap Frame.tokens =
      frame.tokens ++ [written] := by
    simp
  rw [htokens] at hlaid
  have hwritten : ∃ offset, Laid offset written.chunks := by
    rw [Token.allChunks, List.flatMap_append, List.flatMap_singleton] at hlaid
    exact ⟨_, (laid_append.mp hlaid).2⟩
  obtain ⟨hstart, hstop⟩ := Token.fullSpan_ends hwritten.choose_spec
  have hframe := (h.frames frame (by simp [hframes])).extent_eq
  refine ⟨hstart, hstop, ?_⟩
  have hjoin := Extent.ends_join hlaid (Extent.ofTokens_singleton written)
  have hends : (Extent.ofToken written).ends =
      ⟨(b.nextSpan text).start, (b.nextSpan text).stop, front.start, (b.nextSpan text).stop⟩ :=
    Ends.ext rfl rfl hstart hstop
  rw [hends, ← hframe] at hjoin
  exact congrArg some hjoin

/-- Trivia behind a token moves the last stop. -/
theorem Sound.ends_trail (h : b.Sound earlier) (text : String) {frame : Frame}
    {outer : List Frame} (hframes : b.frames = frame :: outer) :
    (frame.extent.map (·.trail (b.nextSpan text))).map Extent.ends =
      (frame.extent.map Extent.ends).map fun ends =>
        { ends with fullStop := (b.nextSpan text).stop } := by
  obtain ⟨offset, hlaid, hle⟩ := h.laid_frames [] [frame] outer hframes
  have htokens : [frame].reverse.flatMap Frame.tokens = frame.tokens := by simp
  rw [htokens] at hlaid hle
  have hframe := (h.frames frame (by simp [hframes])).extent_eq
  cases hextent : frame.extent with
  | none => rfl
  | some extent =>
    rw [hextent] at hframe
    have hfull := Extent.fullSpan_of_laid hlaid hframe.symm
    simp only [Option.map_some, Option.some.injEq, Extent.ends, Extent.trail, Ends.mk.injEq,
      true_and, hfull, nextSpan, Span.hull_start, Span.hull_stop, Span.ofSize_start,
      Span.ofSize_stop]
    omega

/-- **An account never breaks down**: after a call it holds the ends of the extents again. -/
theorem Sound.reckon_eq (h : b.Sound earlier) (c : Call)
    (hafter : b.afterToken = true → ∀ kind text, b.reply (.trail kind text) = none) :
    b.reckon b.account c = some (b.next c).account := by
  rcases b.next_cases c with ⟨hreply, haccepted⟩ | ⟨error, hreply, hrefused⟩
  · generalize b.next c = after at haccepted ⊢
    cases haccepted with
    | start kind => simp [reckon, account]
    | @adopt child parent outer hframes =>
      simp only [account, hframes, List.map_cons, reckon, Ends.all_isSome_extent?, if_true, handOver,
        h.ends_adopt hframes]
    | @root frame hframes hroot =>
      simp [account, hframes, reckon, handOver]
    | lead kind text => simp [reckon, appended?_eq, account]
    | @token kind text frame outer hframes =>
      obtain ⟨hstart, hstop, hends⟩ := h.ends_addToken kind text hframes
      have hfull := Span.between?_eq_some_iff.mpr ⟨hstart, hstop⟩
      simp only [account, hframes, List.map_cons, reckon, appended?_eq, Option.bind_eq_bind,
        Option.bind_some, hfull, hends]
      rw [hstart]
      rfl
    | @trail kind text frame last older outer htoken hframes hnewest =>
      simp only [account, hframes, List.map_cons, reckon, htoken, if_true, appended?_eq,
        Option.bind_eq_bind, Option.bind_some, stopAt, Frame.trail, h.ends_trail text hframes]
      rfl
  · generalize hnext : b.next c = after at hrefused ⊢
    cases hrefused with
    | unmatched hframes => simp [account, hframes, reckon]
    | @second frame root hframes hroot =>
      simp [account, hframes, reckon, handOver]
    | orphan kind text hframes => simp [account, hframes, reckon]
    | untrailed kind text =>
      cases htoken : b.afterToken with
      | false => simp [reckon, htoken]
      | true => cases (hafter htoken kind text).symm.trans hreply

end Builder
end SpacingLint
