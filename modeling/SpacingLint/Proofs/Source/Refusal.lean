import SpacingLint.Proofs.Source.Direct
import SpacingLint.Proofs.Source.Obstacle
import SpacingLint.Proofs.Source.Viable

/-! # Why a text is refused

A text is refused by the lexer or by the parser, never by the builder.  The lexer complains of a
character that begins nothing or of a comment that does not end, the parser of a token.  That is
all that can happen, also to a parser that cuts the text at byte offsets and calls the builder
before it knows whether the text is well formed: none of its cuts fails and none of its calls is
refused.

The token that the parser complains of is the first that is in the way: what stands before it
begins a text that would be accepted, and with it nothing does.
-/
namespace SpacingLint

namespace Lexeme

variable {offset : Nat} {cs : List Char} {error : SourceError}

/-- The lexer complains of a character or of a comment. -/
theorem error_of_scan (h : scan offset cs = .error error) :
    (∃ start found, error = .unexpectedCharacter start found) ∨
      ∃ start, error = .unterminatedComment start := by
  obtain ⟨before, rest, lexemes, -, -, hobstacle⟩ := halted_of_scan h
  cases hobstacle with
  | character => exact .inl ⟨_, _, rfl⟩
  | comment => exact .inr ⟨_, rfl⟩

namespace Scanned

variable {lexemes : List Lexeme}

/-- Only the end of the file has no text. -/
theorem kind_eq_of_text_eq (h : Scanned offset cs lexemes) {lexeme : Lexeme}
    (hmem : lexeme ∈ lexemes) (htext : lexeme.text = "") : lexeme.kind = .endOfFile := by
  induction h with
  | endOfFile =>
    obtain rfl := List.mem_singleton.mp hmem
    rfl
  | token _ _ _ _ ih =>
    rcases List.mem_cons.mp hmem with rfl | hmem
    · have hnil := congrArg String.toList htext
      simp at hnil
    · exact ih hmem

/-- The end of the file stands behind the whole text. -/
theorem offset_of_endOfFile (h : Scanned 0 cs lexemes) {last : Lexeme} (hmem : last ∈ lexemes)
    (hlast : last.kind = .endOfFile) : last.offset = Text.bytes cs := by
  obtain ⟨htext, htrailing⟩ := h.eq_of_endOfFile hmem hlast
  obtain ⟨init, final, rfl, -, hinit⟩ := h.endOfFile_last
  rcases List.mem_append.mp hmem with hmem | hmem
  · exact absurd hlast (hinit last hmem)
  · obtain rfl := List.mem_singleton.mp hmem
    obtain ⟨-, hoffset, -⟩ := placed_append.mp h.placed
    rw [hoffset, ← h.chars_eq, bytes_flatMap_chars, widths_append, Nat.zero_add]
    simp [widths, width, htext, htrailing, size]

end Scanned
end Lexeme

namespace Tree

variable {text : String}

/-- A text is refused by the lexer or by the parser. -/
theorem error_of_ofText {error : SourceError} (h : ofText text = .error error) :
    Lexeme.ofText text = .error error ∨
      ∃ lexemes, Lexeme.ofText text = .ok lexemes ∧ Parser.unit lexemes = .error error := by
  unfold ofText Shape.ofText at h
  rcases bind_eq_error_iff.mp h with hshape | ⟨shape, hshape, hbuild⟩
  · rcases bind_eq_error_iff.mp hshape with hlexing | hparsing
    · exact .inl hlexing
    · exact .inr hparsing
  · -- The builder is called as the grammar has it, so it refuses no call.
    obtain ⟨lexemes, hlexemes, hgrammar, rfl⟩ := Shape.ofText_eq_ok_iff_isUnit.mp hshape
    obtain ⟨tree, htree, -⟩ := exists_ofCalls_of_isUnit hgrammar hlexemes
    rw [htree] at hbuild
    cases hbuild

/-- The parser complains of a token. -/
theorem unexpectedToken_of_unit {lexemes : List Lexeme} {error : SourceError}
    (h : Parser.unit lexemes = .error error) :
    ∃ offset expected found, error = .unexpectedToken offset expected found := by
  obtain ⟨expected, rfl, -⟩ := Parser.unread_of_unit_error h
  cases Parser.unread [.unitRest] lexemes with
  | nil => exact ⟨_, _, _, rfl⟩
  | cons lexeme rest => exact ⟨_, _, _, rfl⟩

/-- **A text is parsed, or refused for what it says.**  Reading it by offsets, and building the
tree while it is read, neither cuts it inside a character nor provokes the builder. -/
theorem parse_outcome (text : String) :
    (∃ tree, parse text = .ok tree ∧ ofText text = .ok tree) ∨
      ∃ error, parse text = .error (.refused error) ∧ ofText text = .error error ∧
        ((∃ offset found, error = .unexpectedCharacter offset found) ∨
          (∃ offset, error = .unterminatedComment offset) ∨
          ∃ offset expected found, error = .unexpectedToken offset expected found) := by
  rw [parse_eq]
  cases hparse : ofText text with
  | ok tree => exact .inl ⟨tree, rfl, rfl⟩
  | error error =>
    refine .inr ⟨error, rfl, rfl, ?_⟩
    rcases error_of_ofText hparse with hlexing | ⟨lexemes, -, hparsing⟩
    · rcases Lexeme.error_of_scan hlexing with hcharacter | hcomment
      · exact .inl hcharacter
      · exact .inr (.inl hcomment)
    · exact .inr (.inr (unexpectedToken_of_unit hparsing))

/-- **A syntax error stands at the first token that is in the way.**  The tokens before it begin
something that the parser accepts, and together with it they do not, whatever follows. -/
theorem unexpectedToken_of_ofText {offset : Nat} {expected : Expectation} {found : String}
    (h : ofText text = .error (.unexpectedToken offset expected found)) :
    ∃ before bad after, Lexeme.ofText text = .ok (before ++ bad :: after) ∧
      bad.offset = offset ∧ bad.text = found ∧
      offset = Text.bytes (before.flatMap Lexeme.chars ++ Lexeme.pieceChars bad.leading) ∧
      (bad.kind = .endOfFile ↔ found = "" ∧ offset = text.utf8ByteSize) ∧
      (∃ more, Parser.Accepts (before.map Lexeme.kind ++ more)) ∧
      ∀ more, ¬ Parser.Accepts (before.map Lexeme.kind ++ bad.kind :: more) := by
  rcases error_of_ofText h with hlexing | ⟨lexemes, hlexemes, hunit⟩
  · rcases Lexeme.error_of_scan hlexing with ⟨_, _, hcharacter⟩ | ⟨_, hcomment⟩
    · cases hcharacter
    · cases hcomment
  · have hscanned := Lexeme.scanned_of_scan hlexemes
    obtain ⟨init, last, rfl, hlast, hinit⟩ := hscanned.endOfFile_last
    obtain ⟨before, bad, after, wanted, heq, herror, haccepts, hrefuses⟩ :=
      Parser.unit_error hinit hlast hunit
    obtain ⟨rfl, rfl, rfl⟩ := SourceError.unexpectedToken.inj herror
    rw [heq] at hlexemes hscanned
    refine ⟨before, bad, after, hlexemes, rfl, rfl, ?_, ?_, haccepts, hrefuses⟩
    · obtain ⟨-, hoffset, -⟩ := Lexeme.placed_append.mp hscanned.placed
      rw [hoffset, Text.bytes_append, Lexeme.bytes_flatMap_chars, Lexeme.bytes_pieceChars,
        Nat.zero_add]
    · constructor
      · intro hkind
        refine ⟨(hscanned.eq_of_endOfFile (by simp) hkind).1, ?_⟩
        rw [hscanned.offset_of_endOfFile (by simp) hkind, Text.utf8ByteSize_eq_bytes]
      · rintro ⟨htext, -⟩
        exact hscanned.kind_eq_of_text_eq (by simp) htext

/-- A parenthesis that is not closed where the block around it is. -/
theorem unexpectedToken_of_ofText_brace :
    let text := "\x7b if (a \x7d b;"
    ofText text = .error (.unexpectedToken 8 .closeParen "\x7d") ∧
      ∃ before bad after, Lexeme.ofText text = .ok (before ++ bad :: after) ∧
        bad.offset = 8 ∧ bad.text = "\x7d" ∧
        8 = Text.bytes (before.flatMap Lexeme.chars ++ Lexeme.pieceChars bad.leading) ∧
        (bad.kind = .endOfFile ↔ "\x7d" = "" ∧ 8 = text.utf8ByteSize) ∧
        (∃ more, Parser.Accepts (before.map Lexeme.kind ++ more)) ∧
        ∀ more, ¬ Parser.Accepts (before.map Lexeme.kind ++ bad.kind :: more) := by
  have h : ofText "\x7b if (a \x7d b;" = .error (.unexpectedToken 8 .closeParen "\x7d") :=
    eq_error_of_match (by decide +kernel)
  exact ⟨h, unexpectedToken_of_ofText h⟩

end Tree
end SpacingLint
