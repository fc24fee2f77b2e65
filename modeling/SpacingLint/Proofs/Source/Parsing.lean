import SpacingLint.Proofs.Source.Lexing
import SpacingLint.Proofs.Source.Reading
import SpacingLint.Proofs.Source.Writing

/-! # A source text and its tree

Lexer, parser and builder put together.  A text that is accepted falls into lexemes, the
lexemes make up a unit of the grammar, and the unit, written out, is never refused by the
builder; so the tree has the text, the lexemes and the shape it should have
(`Tree.ofText_sound`).  The other way round, a well laid tree is determined by its shape,
and so the tree of a text is the only one that has the lexemes of the text for its tokens
and a unit for its shape (`Tree.ofText_complete`).
-/
namespace SpacingLint

/-! ## Units have no empty nodes -/

namespace Shape

theorem allLeafy_append {shapes more : List Shape} :
    AllLeafy (shapes ++ more) ↔ AllLeafy shapes ∧ AllLeafy more := by
  induction shapes with
  | nil => exact ⟨fun h => ⟨trivial, h⟩, fun h => h.2⟩
  | cons shape rest ih =>
    rw [List.cons_append, AllLeafy, AllLeafy, ih, and_assoc]

theorem allLeafy_leaf {lexeme : Lexeme} {more : List Shape} :
    AllLeafy (.leaf lexeme :: more) ↔ AllLeafy more :=
  ⟨fun h => h.2, fun h => ⟨trivial, h⟩⟩

theorem allLeafy_node {kind : Kind} {children : List Shape} :
    AllLeafy [.node kind children] ↔ allLexemes children ≠ [] ∧ AllLeafy children :=
  ⟨fun h => h.1, fun h => ⟨h, trivial⟩⟩

end Shape

namespace Grammar

open Shape

theorem Expresses.allLexemes_ne_nil {phrase : Phrase} {shapes : List Shape}
    (h : Expresses phrase shapes) (hphrase : phrase ≠ .operations) : allLexemes shapes ≠ [] := by
  intro hnil
  have hstarts := h.starts hphrase .endOfFile
  rw [firstKind, hnil] at hstarts
  rcases hstarts with hkind | hkind | hkind <;> cases hkind

theorem Expresses.allLeafy {phrase : Phrase} {shapes : List Shape} (h : Expresses phrase shapes) :
    AllLeafy shapes := by
  induction h with
  | atom => exact ⟨trivial, trivial⟩
  | parenthesised _ _ _ ih => exact allLeafy_leaf.mpr (allLeafy_append.mpr ⟨ih, trivial, trivial⟩)
  | noOperation => trivial
  | operation _ _ _ ihoperand ihmore =>
    exact allLeafy_leaf.mpr (allLeafy_append.mpr ⟨ihoperand, ihmore⟩)
  | expression hfirst _ ihfirst ihmore =>
    refine allLeafy_node.mpr ⟨?_, allLeafy_append.mpr ⟨ihfirst, ihmore⟩⟩
    simp [hfirst.allLexemes_ne_nil nofun]

theorem Derives.allLeafy {clause : Clause} {next : Kind} {shapes : List Shape}
    (h : Derives clause next shapes) : AllLeafy shapes := by
  induction h with
  | ifStatement _ _ _ _ ihtest ihbody ihotherwise =>
    refine allLeafy_node.mpr ⟨by simp, allLeafy_leaf.mpr ?_⟩
    exact allLeafy_append.mpr ⟨ihtest, allLeafy_append.mpr ⟨ihbody, ihotherwise⟩⟩
  | block _ _ _ ih =>
    refine allLeafy_node.mpr ⟨by simp, allLeafy_leaf.mpr ?_⟩
    exact allLeafy_append.mpr ⟨ih, trivial, trivial⟩
  | expressionStatement hvalue =>
    refine allLeafy_node.mpr ⟨by simp, ?_⟩
    exact allLeafy_append.mpr ⟨hvalue.allLeafy, trivial, trivial⟩
  | noCondition => trivial
  | condition _ hinner =>
    exact allLeafy_leaf.mpr (allLeafy_append.mpr ⟨hinner.allLeafy, trivial, trivial⟩)
  | unguarded => trivial
  | guarded _ ih => exact ih
  | noElse => trivial
  | elseClause _ _ ih => exact allLeafy_node.mpr ⟨by simp, allLeafy_leaf.mpr ih⟩
  | noStatement => trivial
  | statements _ _ ihfirst ihmore => exact allLeafy_append.mpr ⟨ihfirst, ihmore⟩

theorem IsUnit.leafy {shape : Shape} (h : IsUnit shape) : shape.Leafy := by
  obtain ⟨body, last, rfl, hbody, -⟩ := h
  exact ⟨by simp, allLeafy_append.mpr ⟨hbody.allLeafy, trivial, trivial⟩⟩

end Grammar

/-! ## The shape of a text -/

open Grammar

/-- What is read off the lexemes of a whole text is a unit that has all of them. -/
theorem Parser.unit_eq_ok_iff_isUnit {text : String} {lexemes : List Lexeme}
    (hlexemes : Lexeme.ofText text = .ok lexemes) {shape : Shape} :
    Parser.unit lexemes = .ok shape ↔ IsUnit shape ∧ shape.lexemes = lexemes := by
  constructor
  · intro h
    obtain ⟨hunit, rest, heq⟩ := Parser.unit_sound h
    refine ⟨hunit, ?_⟩
    -- A unit ends with the end of the file, and that is the last lexeme and no other.
    obtain ⟨init, last, rfl, -, hinit⟩ := (Lexeme.scanned_of_scan hlexemes).endOfFile_last
    obtain ⟨body, final, rfl, -, hfinal⟩ := hunit
    rcases List.eq_nil_or_concat rest with rfl | ⟨more, other, rfl⟩
    · rw [← heq, List.append_nil]
    · rw [Shape.lexemes, Shape.allLexemes_append, List.concat_eq_append, ← List.append_assoc] at heq
      obtain ⟨rfl, -⟩ := List.append_inj' heq rfl
      exact absurd hfinal (hinit final (by simp))
  · rintro ⟨hunit, rfl⟩
    exact Parser.unit_complete hunit

namespace Shape

theorem ofText_eq_ok_iff_isUnit {text : String} {shape : Shape} :
    ofText text = .ok shape ↔
      ∃ lexemes, Lexeme.ofText text = .ok lexemes ∧ IsUnit shape ∧ shape.lexemes = lexemes := by
  unfold ofText
  rw [bind_eq_ok_iff]
  exact exists_congr fun _ => and_congr_right fun h => Parser.unit_eq_ok_iff_isUnit h

end Shape

/-! ## The tree of a text -/

theorem Token.toList_fullText (token : Token) : token.fullText.toList = token.lexeme.chars := by
  simp [fullText, texts, lexeme, Lexeme.chars, Lexeme.pieceChars, Piece.chars, Trivia.piece,
    List.flatMap_map]

namespace Tree

variable {text : String} {tree : Tree}

theorem ofText_eq_ok_iff_ofCalls :
    ofText text = .ok tree ↔
      ∃ shape, Shape.ofText text = .ok shape ∧ ofCalls shape.calls = .ok tree := by
  unfold ofText
  rw [bind_eq_ok_iff]
  refine exists_congr fun shape => and_congr_right fun _ => ?_
  cases ofCalls shape.calls with
  | error error => exact iff_of_false nofun nofun
  | ok built =>
    constructor
    · intro h
      cases h
      rfl
    · intro h
      cases h
      rfl

/-- A unit over the lexemes of a text becomes a tree. -/
theorem exists_ofCalls_of_isUnit {shape : Shape} (hunit : IsUnit shape)
    (hlexemes : Lexeme.ofText text = .ok shape.lexemes) :
    ∃ tree, ofCalls shape.calls = .ok tree ∧ tree.root.shape = shape := by
  have hplaced := (Lexeme.scanned_of_scan hlexemes).placed
  obtain ⟨body, last, rfl, -⟩ := hunit
  exact exists_ofCalls hplaced

/-- **What is known of the tree of a text**: its shape is a unit, its tokens are the
lexemes of the text, and it is well laid. -/
theorem ofText_sound (h : ofText text = .ok tree) :
    IsUnit tree.root.shape ∧ Lexeme.ofText text = .ok (tree.tokens.map Token.lexeme) ∧
      tree.WellLaid := by
  obtain ⟨shape, hshape, hcalls⟩ := ofText_eq_ok_iff_ofCalls.mp h
  obtain ⟨_, hlexemes, hunit, rfl⟩ := Shape.ofText_eq_ok_iff_isUnit.mp hshape
  obtain ⟨built, hbuilt, rfl⟩ := exists_ofCalls_of_isUnit hunit hlexemes
  obtain rfl : built = tree := Except.ok.inj (hbuilt.symm.trans hcalls)
  refine ⟨hunit, ?_, wellLaid_of_calls hcalls⟩
  rw [hlexemes, Node.lexemes_shape]
  rfl

/-- **The tree of a text is the only one of its kind.**  A well laid tree whose tokens are
the lexemes of a text and whose shape is a unit is the tree of that text. -/
theorem ofText_complete (hunit : IsUnit tree.root.shape)
    (hlexemes : Lexeme.ofText text = .ok (tree.tokens.map Token.lexeme))
    (hlaid : tree.WellLaid) : ofText text = .ok tree := by
  have hshape : tree.root.shape.lexemes = tree.tokens.map Token.lexeme := Node.lexemes_shape _
  rw [← hshape] at hlexemes
  obtain ⟨built, hbuilt, hroot⟩ := exists_ofCalls_of_isUnit hunit hlexemes
  obtain rfl : tree = built :=
    hlaid.eq_of_shape_eq (wellLaid_of_calls hbuilt) hunit.leafy hroot.symm
  exact ofText_eq_ok_iff_ofCalls.mpr
    ⟨_, Shape.ofText_eq_ok_iff_isUnit.mpr ⟨_, hlexemes, hunit, rfl⟩, hbuilt⟩

/-- **The grammar decides what is accepted, and as what.**  The tree of a text is the well
laid tree whose tokens are the lexemes of the text and whose shape is a unit; there is no
other, and without one the text is refused. -/
theorem ofText_eq_ok_iff :
    ofText text = .ok tree ↔
      (∃ lexemes, Lexeme.ofText text = .ok lexemes ∧ tree.tokens.map Token.lexeme = lexemes) ∧
        tree.WellLaid ∧ IsUnit tree.root.shape := by
  constructor
  · intro h
    obtain ⟨hunit, hlexemes, hlaid⟩ := ofText_sound h
    exact ⟨⟨_, hlexemes, rfl⟩, hlaid, hunit⟩
  · rintro ⟨⟨_, hlexemes, rfl⟩, hlaid, hunit⟩
    exact ofText_complete hunit hlexemes hlaid

/-! ## Nothing is lost -/

/-- The text of a well laid tree is that of its lexemes. -/
theorem WellLaid.toList_text (h : tree.WellLaid) :
    tree.text.toList = (tree.tokens.map Token.lexeme).flatMap Lexeme.chars := by
  simp [h.text_eq, List.flatMap_map, Token.toList_fullText]

theorem text_eq_of_ofText (h : ofText text = .ok tree) : tree.text = text := by
  obtain ⟨-, hlexemes, hlaid⟩ := ofText_sound h
  apply String.toList_injective
  rw [hlaid.toList_text, (Lexeme.scanned_of_scan hlexemes).chars_eq]

/-- **Parsing is lossless.**  The tree of a text holds the very text, and its tokens are
the lexemes of the text, each with its kind, its text and its trivia, at the offset at
which the lexer found it. -/
theorem ofText_lossless (h : ofText text = .ok tree) :
    tree.text = text ∧
      ∃ lexemes, Lexeme.ofText text = .ok lexemes ∧
        tree.root.descendantTokens.map Token.lexeme = lexemes := by
  rw [tree.root.descendantTokens_eq]
  exact ⟨text_eq_of_ofText h, _, (ofText_sound h).2.1, rfl⟩

/-- A text with line breaks of both kinds, and letters of more than one byte in a comment
that has a line break of its own. -/
theorem ofText_lossless_comments :
    ∃ tree, ofText "if /* ü\n */ (a)\r\n  b; // ß\n" = .ok tree ∧
      tree.text = "if /* ü\n */ (a)\r\n  b; // ß\n" ∧
      ∃ lexemes, Lexeme.ofText "if /* ü\n */ (a)\r\n  b; // ß\n" = .ok lexemes ∧
        tree.root.descendantTokens.map Token.lexeme = lexemes := by
  have heval : (ofText "if /* ü\n */ (a)\r\n  b; // ß\n").toOption.map Tree.text =
      some "if /* ü\n */ (a)\r\n  b; // ß\n" := by
    decide +kernel
  obtain ⟨tree, htree, -⟩ := Option.map_eq_some_iff.mp heval
  exact ⟨tree, eq_ok_of_toOption htree, ofText_lossless (eq_ok_of_toOption htree)⟩

end Tree
end SpacingLint
