import SpacingLint.Proofs.Lint.Spacing
import SpacingLint.Proofs.Source.Mending

/-! # Reported spans are what has to change

A finding covers a keyword `if` and all up to the parenthesis of its condition.  If every such
span of a text is replaced by the keyword and a single space, all at the same time, then the
text is accepted again, its tree is the same up to places and trivia, and nothing is found in it
any more (`Analyzer.collect_mended`).

Replacing is an operation on texts and spans alone (`Text.replace?`); it fails where spans
overlap or cut a character.  What is found among lexemes are the spans of their misspaced
junctions (`Lexeme.offences`), and replacing under these is mending (`Lexeme.replace?_offences`):
by induction over the lexemes, each of which is either copied or is such a keyword, and then the
text goes on with the parenthesis.
-/
namespace SpacingLint

/-! ## Replacing under spans -/

namespace Text

/-- A text that stands at an offset, with what is under some spans replaced at the same time;
`none` unless the spans come one behind the other and lie within the text, and their ends do not
cut a character. -/
def replace? (new : List Char) (offset : Nat) (cs : List Char) : List Span → Option (List Char)
  | [] => some cs
  | span :: rest =>
    if offset ≤ span.start then do
      let before ← take? (span.start - offset) cs
      let behind ← drop? (span.stop - offset) cs
      let more ← replace? new span.stop behind rest
      return before ++ new ++ more
    else none

variable {new : List Char} {offset : Nat}

/-- What stands before all spans stays. -/
theorem replace?_append (front : List Char) {cs out : List Char} {spans : List Span}
    (h : replace? new (offset + bytes front) cs spans = some out) :
    replace? new offset (front ++ cs) spans = some (front ++ out) := by
  cases spans with
  | nil =>
    obtain rfl := Option.some.inj h
    rfl
  | cons span rest =>
    rw [replace?] at h
    split at h
    · next hle =>
      obtain ⟨before, hbefore, h⟩ := Option.bind_eq_some_iff.mp h
      obtain ⟨behind, hbehind, h⟩ := Option.bind_eq_some_iff.mp h
      obtain ⟨more, hmore, h⟩ := Option.bind_eq_some_iff.mp h
      obtain rfl := Option.some.inj h
      have hstart : span.start - offset = bytes front + (span.start - (offset + bytes front)) := by
        omega
      have hstop : span.stop - offset = bytes front + (span.stop - (offset + bytes front)) := by
        have hspan := span.start_le_stop
        omega
      rw [replace?, if_pos (by omega), hstart, hstop, take?_bytes_add, drop?_bytes_add, hbefore,
        hbehind]
      simp [hmore]
    · cases h

/-- What is under the first span is replaced. -/
theorem replace?_cons (old : List Char) {cs out : List Char} {span : Span} {rest : List Span}
    (hstart : span.start = offset) (hstop : span.stop = offset + bytes old)
    (h : replace? new span.stop cs rest = some out) :
    replace? new offset (old ++ cs) (span :: rest) = some (new ++ out) := by
  rw [replace?, if_pos (by omega), hstart, Nat.sub_self, hstop, Nat.add_sub_cancel_left,
    take?_zero, drop?_bytes_append, ← hstop]
  simp [h]

end Text

/-! ## The spans of misspaced junctions -/

namespace Lexeme

open SpacingLint.Parser (peek)
open Junction

/-- What is to be replaced among some lexemes. -/
def offences (lexemes : List Lexeme) : List Span := (Junction.all lexemes).filterMap offence?

/-- A lexeme that is not misspaced adds nothing. -/
theorem offences_cons_of_not {lexeme : Lexeme} {rest : List Lexeme}
    (h : ¬ lexeme.Misspaced rest) : offences (lexeme :: rest) = offences rest := by
  rcases all_cons_cases lexeme rest with ⟨paren, more, rfl, hkeyword, hparen, hall⟩ | hall
  · have hspace : lexeme.trailing.getLast? = some ⟨.whitespace, " "⟩ :=
      Decidable.not_not.mp fun hne => h ⟨hkeyword, hparen, hne⟩
    have hnone : offence? ⟨lexeme, paren⟩ = none := by
      rw [offence?, hspace]
      cases Span.between? lexeme.offset paren.offset <;> rfl
    rw [offences, hall, List.filterMap_cons_none hnone]
    rfl
  · rw [offences, hall]
    rfl

theorem offences_bareFront {lexemes : List Lexeme} (h : peek lexemes ≠ .ifKeyword) :
    offences (bareFront lexemes) = offences lexemes := by
  cases lexemes with
  | nil => rfl
  | cons lexeme rest =>
    have hbare : ({ lexeme with leading := [] } : Lexeme).kind ≠ .ifKeyword := h
    rw [bareFront, offences, offences, all_cons_of_kind_ne h, all_cons_of_kind_ne hbare]

/-- A misspaced keyword adds the span up to the parenthesis. -/
theorem offences_cons_of_misspaced {keyword paren : Lexeme} {rest : List Lexeme}
    (h : keyword.Misspaced (paren :: rest)) (hle : keyword.offset ≤ paren.offset) :
    offences (keyword :: paren :: rest) =
      ⟨keyword.offset, paren.offset, hle⟩ :: offences (bareFront (paren :: rest)) := by
  obtain ⟨hkeyword, hparen, hspace⟩ := h
  have hsome : offence? ⟨keyword, paren⟩ = some ⟨keyword.offset, paren.offset, hle⟩ := by
    simp [offence?, Span.between?, hle, hspace]
  have hbare : offences (bareFront (paren :: rest)) = offences (paren :: rest) :=
    offences_bareFront (by rw [hparen]; decide)
  rw [hbare, offences, all_cons_of_kinds hkeyword hparen, List.filterMap_cons_some hsome]
  rfl

/-- **Nothing is left to be replaced** among mended lexemes. -/
theorem offences_mend (place : Nat) (lexemes : List Lexeme) :
    offences (mend place lexemes) = [] := by
  fun_induction mend place lexemes with
  | case1 => rfl
  | case2 place lexeme rest hspaced ih =>
    rw [offences_cons_of_not, ih]
    rintro ⟨-, -, hspace⟩
    exact hspace rfl
  | case3 place lexeme rest hspaced ih =>
    rw [offences_cons_of_not, ih]
    rintro ⟨hkeyword, hparen, hspace⟩
    exact hspaced ⟨hkeyword, (peek_mend _ rest).symm.trans hparen, hspace⟩

theorem Placed.bareFront {offset : Nat} {lexeme : Lexeme} {rest : List Lexeme}
    (h : Placed offset (lexeme :: rest)) :
    Placed lexeme.offset (Lexeme.bareFront (lexeme :: rest)) := by
  obtain ⟨hoffset, hrest⟩ := h
  refine ⟨rfl, ?_⟩
  show Placed (lexeme.offset + (0 + lexeme.text.utf8ByteSize + size lexeme.trailing)) rest
  have hstop : lexeme.offset + (0 + lexeme.text.utf8ByteSize + size lexeme.trailing) =
      offset + lexeme.width := by
    rw [hoffset, width]
    omega
  rwa [hstop]

/-- **Replacing what is reported mends the lexemes.** -/
theorem replace?_offences {offset : Nat} {lexemes : List Lexeme} (h : Placed offset lexemes)
    (htext : ∀ lexeme ∈ lexemes, lexeme.kind = .ifKeyword → lexeme.text = "if") (place : Nat) :
    Text.replace? "if ".toList offset (lexemes.flatMap chars) (offences lexemes) =
      some ((mend place lexemes).flatMap chars) := by
  fun_induction mend place lexemes generalizing offset with
  | case1 => rfl
  | case2 place lexeme rest hspaced ih =>
    cases rest with
    | nil => cases hspaced.2.1
    | cons paren rest =>
      obtain ⟨hoffset, hparen, hrest⟩ := h
      have hif : lexeme.text = "if" := htext lexeme (List.mem_cons_self ..) hspaced.1
      have hle : lexeme.offset ≤ paren.offset := by
        rw [hoffset, hparen, width]
        omega
      have hchars : (lexeme :: paren :: rest).flatMap chars =
          pieceChars lexeme.leading ++ (("if".toList ++ pieceChars (lexeme.between paren)) ++
            (bareFront (paren :: rest)).flatMap chars) := by
        simp [chars, between, bareFront, hif]
      have hmended : ∀ others : List Lexeme,
          (({ lexeme with
              offset := place + size lexeme.leading
              trailing := [⟨.whitespace, " "⟩] } : Lexeme) :: others).flatMap chars =
            pieceChars lexeme.leading ++ ("if ".toList ++ others.flatMap chars) := by
        intro others
        simp [chars, Piece.chars, hif]
      have hplaced : Placed paren.offset (bareFront (paren :: rest)) :=
        Placed.bareFront ⟨hparen, hrest⟩
      have hkeywords : ∀ other ∈ bareFront (paren :: rest), other.kind = .ifKeyword →
          other.text = "if" := by
        intro other hother hkind
        rcases List.mem_cons.mp hother with rfl | hother
        · exact htext paren (by simp) hkind
        · exact htext other (by simp [hother]) hkind
      rw [offences_cons_of_misspaced hspaced hle, hchars, hmended]
      refine Text.replace?_append _ (Text.replace?_cons _ ?_ ?_ (ih hplaced hkeywords))
      · show lexeme.offset = _
        rw [bytes_pieceChars, hoffset]
      · show paren.offset = _
        rw [hparen, width, hif, Text.utf8ByteSize_eq_bytes, between]
        simp only [pieceChars_append, Text.bytes_append, bytes_pieceChars]
        omega
  | case3 place lexeme rest hspaced ih =>
    rw [offences_cons_of_not hspaced, List.flatMap_cons]
    refine Text.replace?_append lexeme.chars ?_
    rw [bytes_chars]
    exact ih h.2 fun other hother => htext other (List.mem_cons_of_mem _ hother)

end Lexeme

/-! ## What is collected -/

namespace Junction

/-- A finding begins with its keyword. -/
theorem start_of_finding? {junction : Junction} {diagnostic : Diagnostic}
    (h : junction.finding? = some diagnostic) :
    diagnostic.span.start = junction.keyword.offset := by
  obtain ⟨span, hoffence, rfl⟩ := Option.map_eq_some_iff.mp h
  obtain ⟨between, hbetween, hjudged⟩ := Option.bind_eq_some_iff.mp hoffence
  split at hjudged
  · cases hjudged
  · obtain rfl := Option.some.inj hjudged
    exact (Span.between?_eq_some_iff.mp hbetween).1

end Junction

namespace Analyzer

open Junction

/-- What is collected from the tree of a text is found at the junctions of its lexemes. -/
theorem collect_eq_findings {text : String} {tree : Tree} (h : Tree.ofText text = .ok tree) :
    builtin.collect tree =
      .ok ((Junction.all (tree.tokens.map Token.lexeme)).filterMap finding?) := by
  obtain ⟨hunit, hlexemes, hlaid⟩ := Tree.ofText_sound h
  have hfound : tree.nodes.flatMap (IfSpacing.findings tree) =
      (Junction.all (tree.tokens.map Token.lexeme)).filterMap finding? := by
    rw [Tree.nodes_eq, Node.flatMap_findings_eq, hunit.junctions_eq, Node.lexemes_shape]
    rfl
  have hascending : ((Junction.all (tree.tokens.map Token.lexeme)).filterMap finding?).Pairwise
      (·.span.start < ·.span.start) := by
    refine (pairwise_all hlexemes).filterMap _ ?_
    intro first second hlt a ha b hb
    rw [start_of_finding? ha, start_of_finding? hb]
    exact hlt
  rw [collect_builtin hlaid, hfound, Diagnostic.listing_of_ascending hascending]

theorem map_span_findings (lexemes : List Lexeme) :
    ((Junction.all lexemes).filterMap finding?).map Diagnostic.span =
      Lexeme.offences lexemes := by
  rw [List.map_filterMap, Lexeme.offences]
  refine List.filterMap_congr fun junction _ => ?_
  rw [finding?, Option.map_map]
  exact congrFun Option.map_id junction.offence?

/-- **Reported spans are what has to change.**  The spans that are collected from the tree of a
text can be replaced by `if` and a single space at the same time.  The text that comes out is
accepted, its tokens have the same kinds and texts, its tree is the same up to places and trivia,
and nothing is collected from it. -/
theorem collect_mended {text : String} {tree : Tree} (h : Tree.ofText text = .ok tree) :
    ∃ diagnostics mended other,
      builtin.collect tree = .ok diagnostics ∧
      Text.replace? "if ".toList 0 text.toList (diagnostics.map Diagnostic.span) = some mended ∧
      Tree.ofText (String.ofList mended) = .ok other ∧
      other.tokens.map (fun token => (token.kind, token.text)) =
        tree.tokens.map (fun token => (token.kind, token.text)) ∧
      other.root.shape.map Lexeme.plain = tree.root.shape.map Lexeme.plain ∧
      builtin.collect other = .ok [] := by
  obtain ⟨-, hlexemes, -⟩ := Tree.ofText_sound h
  have hscanned := Lexeme.scanned_of_scan hlexemes
  -- The mended lexemes are those of the mended text.
  have hother : Lexeme.ofText (String.ofList
      ((Lexeme.mend 0 (tree.tokens.map Token.lexeme)).flatMap Lexeme.chars)) =
      .ok (Lexeme.mend 0 (tree.tokens.map Token.lexeme)) := by
    rw [Lexeme.ofText, String.toList_ofList]
    exact (hscanned.mend 0).1.scan_eq
  have hplain := Lexeme.map_plain_mend 0 (tree.tokens.map Token.lexeme)
  obtain ⟨other, hbuilt, htokens, hshape⟩ := Tree.exists_ofText_of_plain h hother hplain
  refine ⟨_, _, other, collect_eq_findings h, ?_, hbuilt, ?_, hshape, ?_⟩
  · rw [map_span_findings, ← hscanned.chars_eq]
    exact Lexeme.replace?_offences hscanned.placed (fun _ hmem => hscanned.text_eq_if hmem) 0
  · rw [← htokens] at hplain
    simpa [Function.comp_def, Token.lexeme, Lexeme.plain] using
      congrArg (List.map fun lexeme => (lexeme.kind, lexeme.text)) hplain
  · have hnone : ((Junction.all (Lexeme.mend 0 (tree.tokens.map Token.lexeme))).filterMap
        finding?).map Diagnostic.span = [] := by
      rw [map_span_findings, Lexeme.offences_mend]
    rw [collect_eq_findings hbuilt, htokens, List.map_eq_nil_iff.mp hnone]

/-- A gap without a space, one that stays, and one with a line break. -/
theorem collect_mended_else : ∃ tree diagnostics other,
    Tree.ofText "if(a)if/* ( */ (b)c;else if//\n (d)e;" = .ok tree ∧
      builtin.collect tree = .ok diagnostics ∧
      Text.replace? "if ".toList 0 "if(a)if/* ( */ (b)c;else if//\n (d)e;".toList
        (diagnostics.map Diagnostic.span) = some "if (a)if/* ( */ (b)c;else if (d)e;".toList ∧
      Tree.ofText "if (a)if/* ( */ (b)c;else if (d)e;" = .ok other ∧
      other.root.shape.map Lexeme.plain = tree.root.shape.map Lexeme.plain ∧
      builtin.collect other = .ok [] := by
  have heval : ((Tree.ofText "if(a)if/* ( */ (b)c;else if//\n (d)e;").toOption.bind fun tree =>
      Text.replace? "if ".toList 0 "if(a)if/* ( */ (b)c;else if//\n (d)e;".toList
        (Lexeme.offences (tree.tokens.map Token.lexeme))) =
      some "if (a)if/* ( */ (b)c;else if (d)e;".toList := by
    decide +kernel
  obtain ⟨tree, htree, hreplaced⟩ := Option.bind_eq_some_iff.mp heval
  obtain ⟨diagnostics, mended, other, hcollect, hmended, hother, -, hshape, hnone⟩ :=
    collect_mended (eq_ok_of_toOption htree)
  obtain rfl := Except.ok.inj ((collect_eq_findings (eq_ok_of_toOption htree)).symm.trans hcollect)
  have hsame := hmended
  rw [map_span_findings, hreplaced] at hsame
  obtain rfl := Option.some.inj hsame
  exact ⟨tree, _, other, eq_ok_of_toOption htree, hcollect, hmended, by simpa using hother, hshape,
    hnone⟩

end Analyzer
end SpacingLint
