import Mathlib.Data.List.Basic
import SpacingLint.Proofs.Analysis.Builtin
import SpacingLint.Proofs.Lint.Junction
import SpacingLint.Proofs.Lint.Listing
import SpacingLint.Proofs.Source.Gap
import SpacingLint.Proofs.Source.Parsing

/-! # What is found in a source text

The rule of the space after `if` is a law of source texts: what is found in the tree of a
text can be read off the text and its lexemes, without any tree.  Wherever a keyword `if`
is followed by an opening parenthesis as the next lexeme, the text between the two has to
end in a single space, read as trivia, and to have no line break outside a comment.  Each
place where it does not is reported once, in the order of the text, and nothing else is.
-/
namespace SpacingLint

/-! ## Junctions of a text -/

namespace Junction

/-- The text between the keyword and the parenthesis. -/
def gap? (text : String) (junction : Junction) : Option (List Char) :=
  Text.slice? text.toList
    (junction.keyword.offset + junction.keyword.text.utf8ByteSize) junction.paren.offset

/-- Whether a gap is as it should be: read as trivia, it has no line break and ends in a
single space. -/
def isCompliant (gap : List Char) : Bool :=
  match Lexeme.run false 0 gap with
  | .ok (pieces, []) => Lexeme.endsInSpace pieces
  | _ => false

/-- What is due at a junction of a text. -/
def due? (text : String) (junction : Junction) : Option Diagnostic := do
  let gap ← junction.gap? text
  let span ← Span.between? junction.keyword.offset junction.paren.offset
  if isCompliant gap then none
  else some (Diagnostic.ofArguments IfSpacing.descriptor span [])

theorem isCompliant_between {junction : Junction}
    (h : junction.keyword.Adjoins junction.paren) :
    isCompliant (Lexeme.pieceChars (junction.keyword.between junction.paren)) = true ↔
      junction.keyword.trailing.getLast? = some ⟨.whitespace, " "⟩ := by
  rw [isCompliant, h.run_between]
  exact h.endsInSpace_between

section Text

variable {text : String} {lexemes : List Lexeme} (h : Lexeme.ofText text = .ok lexemes)

include h

theorem text_keyword {junction : Junction} (hmem : junction ∈ all lexemes) :
    junction.keyword.text = "if" := by
  obtain ⟨hkind, -, init, rest, rfl⟩ := mem_all_iff.mp hmem
  exact (Lexeme.scanned_of_scan h).text_eq_if (by simp) hkind

theorem finding?_eq_due? {junction : Junction} (hmem : junction ∈ all lexemes) :
    junction.finding? = junction.due? text := by
  obtain ⟨-, -, init, rest, rfl⟩ := mem_all_iff.mp hmem
  have hscanned := Lexeme.scanned_of_scan h
  have hgap : junction.gap? text = _ := hscanned.slice?_between
  have hcompliant := isCompliant_between hscanned.adjoins
  rw [finding?, offence?, due?, hgap]
  cases Span.between? junction.keyword.offset junction.paren.offset with
  | none => rfl
  | some span =>
    simp only [Option.bind_eq_bind, Option.bind_some, hcompliant]
    split <;> rfl

theorem pairwise_all : (all lexemes).Pairwise (·.keyword.offset < ·.keyword.offset) := by
  have hplaced := (Lexeme.scanned_of_scan h).placed.pairwise.1
  have hkeywords := List.pairwise_map.mp (hplaced.sublist (all_sublist lexemes))
  refine hkeywords.imp_of_mem ?_
  intro first second hfirst _ hle
  rw [text_keyword h hfirst] at hle
  exact Nat.lt_of_lt_of_le (Nat.lt_add_of_pos_right (by decide)) hle

/-- The gap of a junction is part of the text and reads as trivia. -/
theorem exists_gap {junction : Junction} (hmem : junction ∈ all lexemes) :
    ∃ gap pieces span, junction.gap? text = some gap ∧
      Lexeme.run false 0 gap = .ok (pieces, []) ∧
      Span.between? junction.keyword.offset junction.paren.offset = some span ∧
      Text.slice? text.toList span.start span.stop = some ("if".toList ++ gap) := by
  have htext := text_keyword h hmem
  obtain ⟨-, -, init, rest, rfl⟩ := mem_all_iff.mp hmem
  have hscanned := Lexeme.scanned_of_scan h
  have hle : junction.keyword.offset ≤ junction.paren.offset := by
    obtain ⟨_, _, -, -, hparen⟩ := hscanned.exists_eq_append
    omega
  refine ⟨_, _, ⟨_, _, hle⟩, hscanned.slice?_between, hscanned.adjoins.run_between,
    Span.between?_eq_some_iff.mpr ⟨rfl, rfl⟩, ?_⟩
  rw [hscanned.slice?_upTo, htext]

end Text

theorem offset_of_due? {text : String} {junction : Junction} {diagnostic : Diagnostic}
    (h : junction.due? text = some diagnostic) :
    diagnostic.span.start = junction.keyword.offset := by
  obtain ⟨gap, -, h⟩ := Option.bind_eq_some_iff.mp h
  obtain ⟨span, hspan, h⟩ := Option.bind_eq_some_iff.mp h
  split at h
  · cases h
  · cases h
    exact (Span.between?_eq_some_iff.mp hspan).1

end Junction

/-! ## What is collected from a text -/

namespace Analyzer

open Junction

/-- **The rule of the space is a law of source texts.**  What is collected from the tree of
a text is what is due at the junctions among its lexemes, one diagnostic for each whose gap
is not as it should be, in the order of the text.  Every gap is part of the text, reads as
trivia, and stands in the tree behind the keyword, between its start and the parenthesis. -/
theorem collect_ofText {text : String} {tree : Tree} (h : Tree.ofText text = .ok tree) :
    ∃ lexemes diagnostics, Lexeme.ofText text = .ok lexemes ∧
      builtin.collect tree = .ok diagnostics ∧
      diagnostics = (Junction.all lexemes).filterMap (due? text) ∧
      diagnostics.Pairwise (·.span.start < ·.span.start) ∧
      ∀ junction ∈ Junction.all lexemes, ∃ gap pieces span,
        junction.gap? text = some gap ∧ Lexeme.run false 0 gap = .ok (pieces, []) ∧
          Span.between? junction.keyword.offset junction.paren.offset = some span ∧
          tree.slice? span = some ("if" ++ String.ofList gap) := by
  obtain ⟨hunit, hlexemes, hlaid⟩ := Tree.ofText_sound h
  -- The rule judges the trivia behind the keyword, the law the text of the whole gap.
  have hfound : tree.nodes.flatMap (IfSpacing.findings tree) =
      (Junction.all (tree.tokens.map Token.lexeme)).filterMap (due? text) := by
    rw [Tree.nodes_eq, Node.flatMap_findings_eq, hunit.junctions_eq, Node.lexemes_shape]
    exact List.filterMap_congr fun junction hmem => finding?_eq_due? hlexemes hmem
  have hascending : ((Junction.all (tree.tokens.map Token.lexeme)).filterMap
      (due? text)).Pairwise (·.span.start < ·.span.start) := by
    refine (pairwise_all hlexemes).filterMap _ ?_
    intro first second hlt a ha b hb
    rw [offset_of_due? ha, offset_of_due? hb]
    exact hlt
  refine ⟨_, _, hlexemes, ?_, rfl, hascending, ?_⟩
  · rw [collect_builtin hlaid, hfound, Diagnostic.listing_of_ascending hascending]
  · intro junction hmem
    obtain ⟨gap, pieces, span, hgap, hpieces, hspan, hslice⟩ := exists_gap hlexemes hmem
    refine ⟨gap, pieces, span, hgap, hpieces, hspan, ?_⟩
    rw [Tree.slice?, Tree.text_eq_of_ofText h, hslice, Option.map_some, String.ofList_append,
      String.ofList_toList]

/-- A statement without a space, one that has it behind a comment, and one with a line break
in the gap. -/
theorem collect_ofText_else :
    ∃ tree diagnostics, Tree.ofText "if(a)if/* ( */ (b)c;else if//\n (d)e;" = .ok tree ∧
      builtin.collect tree = .ok diagnostics ∧
      diagnostics.map (fun diagnostic => (diagnostic.span.start, diagnostic.span.stop)) =
        [(0, 2), (25, 31)] := by
  have htext : (Tree.ofText "if(a)if/* ( */ (b)c;else if//\n (d)e;").toOption.isSome := by
    decide +kernel
  have hdue : (Lexeme.ofText "if(a)if/* ( */ (b)c;else if//\n (d)e;").toOption.map
      (fun lexemes => ((Junction.all lexemes).filterMap
        (due? "if(a)if/* ( */ (b)c;else if//\n (d)e;")).map
          fun diagnostic => (diagnostic.span.start, diagnostic.span.stop)) =
      some [(0, 2), (25, 31)] := by
    decide +kernel
  obtain ⟨tree, htree⟩ := Option.isSome_iff_exists.mp htext
  obtain ⟨lexemes, diagnostics, hlexemes, hcollect, rfl, -⟩ :=
    collect_ofText (eq_ok_of_toOption htree)
  rw [hlexemes] at hdue
  exact ⟨tree, _, eq_ok_of_toOption htree, hcollect, Option.some.inj hdue⟩

end Analyzer
end SpacingLint
