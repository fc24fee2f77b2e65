import SpacingLint.Proofs.Source.Gap
import SpacingLint.Proofs.Tree.Fidelity

/-! # Where a text cannot be read on

A text that is not lexed has been read up to some place, where a character stands that begins
neither trivia nor a token, or where a comment opens that does not end (`Obstacle`).  It is to
be shown that what stands before that place can be lexed by itself.  This is not for granted:
how far an atom goes is decided by the text behind it, some of which is cut off.

But a cut only takes away what an atom could go on with.  A run of trivia that has been read
before some text is read the same before any front of it (`Runs.before`), and so is a token
(`Scanned.token_before`).  What stands before the obstacle is put together from these, first
for a run that meets a comment without an end (`halted_of_run`), then for whole texts.
-/
namespace SpacingLint
namespace Lexeme

variable {offset : Nat} {cs rest after : List Char} {error : SourceError}

/-! ## What is in the way -/

/-- A character that begins neither trivia nor a token before the text `after`. -/
structure Stray (c : Char) (after : List Char) : Prop where
  /-- It may stand in no word and in no number. -/
  word : c.isAlpha = false ∧ c.isDigit = false ∧ c ≠ '_'
  /-- It does not stand for itself. -/
  punctuation : c ∉ ['(', ')', '\x7b', '\x7d', ';']
  /-- No operator is made of it. -/
  operator : c ∉ ['+', '-', '*', '/', '%', '<', '>', '=', '!', '&', '|']
  /-- It is no space that may stand anywhere. -/
  space : c ∉ [' ', '\t', '\n']
  /-- A carriage return does not stand before a line feed. -/
  lineBreak : c = '\r' → after.head? ≠ some '\n'

/-- **What is in the way** of reading on at an offset, and the error that tells of it. -/
inductive Obstacle (offset : Nat) : List Char → SourceError → Prop
  /-- A character that begins nothing. -/
  | character {c : Char} {after : List Char} (hstray : Stray c after) :
      Obstacle offset (c :: after) (.unexpectedCharacter offset c)
  /-- A comment that opens and has no closing delimiter behind the opening one. -/
  | comment {body : List Char} (hbody : ¬ ['*', '/'] <:+: body) :
      Obstacle offset ('/' :: '*' :: body) (.unterminatedComment offset)

theorem not_infix_of_cutComment (h : cutComment cs = none) : ¬ ['*', '/'] <:+: cs := by
  fun_induction cutComment cs with
  | case1 => exact fun hinfix => absurd hinfix.length_le (by decide)
  | case2 => cases h
  | case3 c more hnot ih =>
    intro hinfix
    rcases List.infix_cons_iff.mp hinfix with ⟨tail, htail⟩ | hinfix
    · obtain ⟨rfl, rfl⟩ := List.cons.inj htail
      exact hnot tail rfl rfl
    · exact ih (Option.map_eq_none_iff.mp h) hinfix

theorem obstacle_of_unterminated (h : front rest = .unterminated) :
    Obstacle offset rest (.unterminatedComment offset) := by
  unfold front at h
  split at h
  · cases h
  · cases h
  · cases h
  · split at h
    · cases h
    · next hcut => exact .comment (not_infix_of_cutComment hcut)
  · split at h <;> cases h
  · cases h

/-- A character that no token begins with. -/
theorem classes_of_word_eq_none {c : Char} (h : word c cs = none) :
    punctuation? c = none ∧ isWordStart c = false ∧ c.isDigit = false ∧ isOperator c = false := by
  unfold word at h
  split at h
  · cases h
  · next hpunctuation =>
    split at h
    · cases h
    · next hstart =>
      split at h
      · cases h
      · next hdigit =>
        split at h
        · split at h
          · split at h <;> cases h
          · cases h
        · next hoperator =>
          exact ⟨hpunctuation, Bool.eq_false_iff.mpr hstart, Bool.eq_false_iff.mpr hdigit,
            Bool.eq_false_iff.mpr hoperator⟩

theorem obstacle_of_word_eq_none {c : Char} (hfront : front (c :: after) = .other)
    (hword : word c after = none) :
    Obstacle offset (c :: after) (.unexpectedCharacter offset c) := by
  obtain ⟨hpunctuation, hstart, hdigit, hoperator⟩ := classes_of_word_eq_none hword
  obtain ⟨halpha, hunderscore⟩ : c.isAlpha = false ∧ c ≠ '_' := by
    simpa [isWordStart] using hstart
  obtain ⟨⟨⟨hblank, hfeed⟩, hreturn⟩, -⟩ :
      ((isBlank c = false ∧ c ≠ '\n') ∧ (c = '\r' → after.head? ≠ some '\n')) ∧ _ := by
    simpa [opensTrivia] using front_eq_other_iff.mp hfront
  refine .character ⟨⟨halpha, hdigit, hunderscore⟩, ?_, ?_, ?_, hreturn⟩
  · intro hmem
    simp only [List.mem_cons, List.not_mem_nil, or_false] at hmem
    rcases hmem with rfl | rfl | rfl | rfl | rfl <;> cases hpunctuation
  · exact fun hmem => absurd (List.contains_iff_mem.mpr hmem) (Bool.eq_false_iff.mp hoperator)
  · have hne : c ≠ ' ' ∧ c ≠ '\t' := by simpa [isBlank] using hblank
    simp [hne, hfeed]

/-- **A token is read the same before less text**, if what is left of the text behind it is
trivia that trails it and lexemes. -/
theorem Scanned.token_before {more behind behind' : List Char} {c : Char} {kind : Kind}
    {leading trailing : List Piece} {later : List Lexeme}
    (hleading : Runs false cs leading (c :: after))
    (hword : word c after = some (kind, more, behind)) (hbehind : behind' <+: behind)
    (htrailing : Runs true behind' trailing rest)
    (hlater : Scanned (offset + size leading + Text.bytes (c :: more) + size trailing) rest later) :
    Scanned offset (pieceChars leading ++ c :: (more ++ behind'))
      (⟨kind, String.ofList (c :: more), offset + size leading, leading, trailing⟩ :: later) := by
  have hafter : c :: more ++ behind' <+: c :: after := by
    rw [← append_of_word hword]
    exact (List.prefix_append_right_inj (c :: more)).mpr hbehind
  have hcut : word c (more ++ behind') = some (kind, more, behind') :=
    word_cut hword (.inl (resumes_of_isPrefix hbehind))
  exact .token (hleading.before hafter) hcut htrailing hlater

/-! ## What stands before the obstacle -/

/-- **A run that meets a comment without an end** is a run by itself up to there. -/
theorem halted_of_run {ofLine : Bool} (h : run ofLine offset cs = .error error) :
    ∃ pieces rest, cs = pieceChars pieces ++ rest ∧ Runs ofLine (pieceChars pieces) pieces [] ∧
      Obstacle (offset + size pieces) rest error := by
  fun_induction run ofLine offset cs with
  | case1 => cases h
  | case2 offset cs hfront =>
    cases h
    exact ⟨[], cs, rfl, .stop rfl, obstacle_of_unterminated hfront⟩
  | case3 => cases h
  | case4 => cases h
  | case5 offset cs kind text mid hfront hline inner hrun ih =>
    cases h
    obtain ⟨pieces, rest, rfl, hruns, hobstacle⟩ := ih hrun
    have hkind : ofLine = true → kind ≠ .endOfLine := by simpa using hline
    have hpiece : front (text ++ pieceChars pieces) = .trivia kind text (pieceChars pieces) :=
      front_cut hfront (resumes_of_isPrefix (List.prefix_append ..))
    have hchars :
        pieceChars (⟨kind, String.ofList text⟩ :: pieces) = text ++ pieceChars pieces := by
      rw [pieceChars_cons, Piece.chars, String.toList_ofList]
    refine ⟨⟨kind, String.ofList text⟩ :: pieces, rest, ?_, ?_, ?_⟩
    · rw [hchars, List.append_assoc, append_of_front hfront]
    · rw [hchars]
      exact .more hkind hpiece hruns
    · rw [size, Text.utf8ByteSize_ofList, ← Nat.add_assoc]
      exact hobstacle

/-- A text that stands at `offset` is lexed up to an obstacle: what stands before that is the
text of some lexemes, and `error` tells what is in the way. -/
def Halted (offset : Nat) (cs : List Char) (error : SourceError) : Prop :=
  ∃ before rest lexemes, cs = before ++ rest ∧ Scanned offset before lexemes ∧
    Obstacle (offset + Text.bytes before) rest error

/-- A text is lexed up to the obstacle behind its first token. -/
theorem Halted.of_token {more behind behind' tail : List Char} {c : Char} {kind : Kind}
    {leading trailing : List Piece} {later : List Lexeme}
    (hleading : Runs false cs leading (c :: after))
    (hword : word c after = some (kind, more, behind)) (hbehind : behind = behind' ++ rest)
    (htrailing : Runs true behind' trailing tail)
    (hlater : Scanned (offset + size leading + Text.bytes (c :: more) + size trailing) tail later)
    (hobstacle : Obstacle (offset + size leading + Text.bytes (c :: more) + Text.bytes behind')
      rest error) : Halted offset cs error := by
  refine ⟨pieceChars leading ++ c :: (more ++ behind'), rest, _, ?_,
    .token_before hleading hword (hbehind ▸ List.prefix_append ..) htrailing hlater, ?_⟩
  · rw [← hleading.chars_eq, ← append_of_word hword, hbehind]
    simp
  · rw [← List.cons_append, Text.bytes_append, Text.bytes_append, bytes_pieceChars,
      ← Nat.add_assoc, ← Nat.add_assoc]
    exact hobstacle

/-- **What stands before the obstacle is lexed by itself.** -/
theorem halted_of_scan (h : scan offset cs = .error error) : Halted offset cs error := by
  fun_induction scan offset cs with
  | case1 offset cs inner hrun =>
    cases h
    obtain ⟨pieces, rest, rfl, hruns, hobstacle⟩ := halted_of_run hrun
    rw [← bytes_pieceChars] at hobstacle
    exact ⟨_, rest, _, rfl, .endOfFile hruns, hobstacle⟩
  | case2 => cases h
  | case3 offset cs leading start c after hrun hword =>
    cases h
    have hruns := runs_of_run hrun
    have hstart : start = offset + Text.bytes (pieceChars leading) := by rw [bytes_pieceChars]
    rw [hstart]
    exact ⟨_, _, _, hruns.chars_eq.symm, .endOfFile hruns.cut,
      obstacle_of_word_eq_none hruns.front_eq_other hword⟩
  | case4 offset cs leading start c after hlead kind more behind hword text stop inner hrun =>
    cases h
    obtain ⟨pieces, rest, hbehind, hruns, hobstacle⟩ := halted_of_run hrun
    simp only [stop, text, Text.utf8ByteSize_ofList, ← bytes_pieceChars pieces] at hobstacle
    exact .of_token (runs_of_run hlead) hword hbehind hruns (.endOfFile (.stop rfl)) hobstacle
  | case5 offset cs leading start c after hlead kind more behind hword text stop trailing mid htrail
      inner hlater _ ih =>
    cases h
    obtain ⟨before, rest, lexemes, rfl, hscanned, hobstacle⟩ := ih hlater
    have htrail := runs_of_run htrail
    have hbehind : behind = pieceChars trailing ++ before ++ rest := by
      rw [List.append_assoc, htrail.chars_eq]
    simp only [stop, text, Text.utf8ByteSize_ofList] at hscanned hobstacle
    refine .of_token (runs_of_run hlead) hword hbehind
      (htrail.before (List.prefix_append before rest)) hscanned ?_
    rw [Text.bytes_append, bytes_pieceChars, ← Nat.add_assoc]
    exact hobstacle
  | case6 => cases h

/-- **A lexical error is exact.**  It names the byte offset of a place in the text where a
character begins nothing or a comment does not end, and the text before that place is lexed
without error. -/
theorem obstacle_of_ofText {text : String} (h : ofText text = .error error) :
    ∃ before rest, text.toList = before ++ rest ∧ Text.bytes before < text.utf8ByteSize ∧
      (∃ lexemes, ofText (String.ofList before) = .ok lexemes) ∧
      Obstacle (Text.bytes before) rest error := by
  obtain ⟨before, rest, lexemes, htext, hscanned, hobstacle⟩ := halted_of_scan h
  rw [Nat.zero_add] at hobstacle
  have hpos : 0 < Text.bytes rest := by
    cases hobstacle with
    | character | comment => exact Text.bytes_pos (List.cons_ne_nil _ _)
  refine ⟨before, rest, htext, ?_, ⟨lexemes, ?_⟩, hobstacle⟩
  · rw [Text.utf8ByteSize_eq_bytes, htext, Text.bytes_append]
    omega
  · rw [ofText, String.toList_ofList]
    exact hscanned.scan_eq

/-- An operator and two comments that hold on to each other, and a carriage return that ends the
second comment but no line. -/
theorem obstacle_of_ofText_return :
    let text := "a=/*é*///c\rb"
    ofText text = .error (.unexpectedCharacter 11 '\r') ∧
      ∃ before rest, text.toList = before ++ rest ∧ Text.bytes before < text.utf8ByteSize ∧
        (∃ lexemes, ofText (String.ofList before) = .ok lexemes) ∧
        Obstacle (Text.bytes before) rest (.unexpectedCharacter 11 '\r') := by
  have h : ofText "a=/*é*///c\rb" = .error (.unexpectedCharacter 11 '\r') :=
    eq_error_of_match (by decide +kernel)
  exact ⟨h, obstacle_of_ofText h⟩

end Lexeme
end SpacingLint
