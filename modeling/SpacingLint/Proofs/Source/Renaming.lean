import SpacingLint.Proofs.Source.Parsing

/-! # The parser sees kinds only

What the grammar asks of a lexeme is its kind.  Exchanging lexemes for others of the same kinds
turns one phrase of the grammar into another of the same structure (`Grammar.Derives.map`), and
so a text is accepted if its lexemes have the kinds and texts of those of an accepted one, and
its tree is the same up to places and trivia (`Tree.exists_ofText_of_plain`).
-/
namespace SpacingLint

/-- A lexeme without its place and its trivia. -/
def Lexeme.plain (lexeme : Lexeme) : Lexeme := ⟨lexeme.kind, lexeme.text, 0, [], []⟩

namespace Shape

mutual

/-- A shape with its lexemes exchanged. -/
def map (f : Lexeme → Lexeme) : Shape → Shape
  | .leaf lexeme => .leaf (f lexeme)
  | .node kind children => .node kind (mapAll f children)

/-- Some shapes with their lexemes exchanged. -/
def mapAll (f : Lexeme → Lexeme) : List Shape → List Shape
  | [] => []
  | shape :: rest => shape.map f :: mapAll f rest

end

variable {f : Lexeme → Lexeme}

@[simp] theorem mapAll_nil : mapAll f [] = [] := rfl

@[simp] theorem mapAll_leaf (lexeme : Lexeme) (rest : List Shape) :
    mapAll f (.leaf lexeme :: rest) = .leaf (f lexeme) :: mapAll f rest := rfl

@[simp] theorem mapAll_node (kind : Kind) (children rest : List Shape) :
    mapAll f (.node kind children :: rest) = .node kind (mapAll f children) :: mapAll f rest := rfl

@[simp] theorem mapAll_append (shapes more : List Shape) :
    mapAll f (shapes ++ more) = mapAll f shapes ++ mapAll f more := by
  induction shapes with
  | nil => rfl
  | cons shape rest ih => exact congrArg (shape.map f :: ·) ih

mutual

theorem lexemes_map : (shape : Shape) → (shape.map f).lexemes = shape.lexemes.map f
  | .leaf _ => rfl
  | .node _ children => allLexemes_mapAll children

theorem allLexemes_mapAll : (shapes : List Shape) →
    allLexemes (mapAll f shapes) = (allLexemes shapes).map f
  | [] => rfl
  | shape :: rest => by
    rw [mapAll, allLexemes, allLexemes, lexemes_map shape, allLexemes_mapAll rest,
      List.map_append]

end

mutual

theorem map_map (g : Lexeme → Lexeme) : (shape : Shape) →
    (shape.map f).map g = shape.map (fun lexeme => g (f lexeme))
  | .leaf _ => rfl
  | .node kind children => congrArg (node kind) (mapAll_mapAll g children)

theorem mapAll_mapAll (g : Lexeme → Lexeme) : (shapes : List Shape) →
    mapAll g (mapAll f shapes) = mapAll (fun lexeme => g (f lexeme)) shapes
  | [] => rfl
  | shape :: rest => by
    rw [mapAll, mapAll, mapAll, map_map g shape, mapAll_mapAll g rest]

end

end Shape

/-! ## Phrases with other lexemes -/

namespace Grammar

open Shape

section Map

variable {f : Lexeme → Lexeme} (hf : ∀ lexeme, (f lexeme).kind = lexeme.kind)

include hf

theorem firstKind_mapAll (shapes : List Shape) (next : Kind) :
    firstKind (mapAll f shapes) next = firstKind shapes next := by
  unfold firstKind
  rw [allLexemes_mapAll]
  cases allLexemes shapes with
  | nil => rfl
  | cons lexeme rest => exact hf lexeme

/-- Expressions stay expressions. -/
theorem Expresses.map {phrase : Phrase} {shapes : List Shape} (h : Expresses phrase shapes) :
    Expresses phrase (mapAll f shapes) := by
  induction h with
  | atom hkind => exact .atom (by rwa [hf])
  | parenthesised hopening _ hclosing ih =>
    simp only [mapAll_leaf, mapAll_append, mapAll_nil]
    exact .parenthesised ((hf _).trans hopening) ih ((hf _).trans hclosing)
  | noOperation => exact .noOperation
  | operation hoperator _ _ ihoperand ihmore =>
    simp only [mapAll_leaf, mapAll_append]
    exact .operation ((hf _).trans hoperator) ihoperand ihmore
  | expression _ _ ihfirst ihmore =>
    simp only [mapAll_node, mapAll_append, mapAll_nil]
    exact .expression ihfirst ihmore

/-- **A clause stays a clause** when its lexemes are exchanged for others of the same kinds. -/
theorem Derives.map {clause : Clause} {next : Kind} {shapes : List Shape}
    (h : Derives clause next shapes) : Derives clause next (mapAll f shapes) := by
  induction h with
  | @ifStatement next keyword test body otherwise hkeyword _ _ _ ihtest ihbody ihotherwise =>
    simp only [mapAll_node, mapAll_leaf, mapAll_append, mapAll_nil]
    -- What follows a part has the kind that it had.
    have htest : Derives .condition (firstKind (mapAll f body ++ mapAll f otherwise) next)
        (mapAll f test) := by
      rwa [← mapAll_append, firstKind_mapAll hf]
    have hbody : Derives .guarded (firstKind (mapAll f otherwise) next) (mapAll f body) := by
      rwa [firstKind_mapAll hf]
    exact .ifStatement ((hf _).trans hkeyword) htest hbody ihotherwise
  | block hopening _ hclosing ih =>
    simp only [mapAll_node, mapAll_leaf, mapAll_append, mapAll_nil]
    exact .block ((hf _).trans hopening) ih ((hf _).trans hclosing)
  | expressionStatement hvalue hsemicolon =>
    simp only [mapAll_node, mapAll_leaf, mapAll_append, mapAll_nil]
    exact .expressionStatement (hvalue.map hf) ((hf _).trans hsemicolon)
  | noCondition hnext => exact .noCondition hnext
  | condition hopening hinner hclosing =>
    simp only [mapAll_leaf, mapAll_append, mapAll_nil]
    exact .condition ((hf _).trans hopening) (hinner.map hf) ((hf _).trans hclosing)
  | unguarded hnext => exact .unguarded hnext
  | guarded _ ih => exact .guarded ih
  | noElse hnext => exact .noElse hnext
  | elseClause hkeyword _ ih =>
    simp only [mapAll_node, mapAll_leaf, mapAll_nil]
    exact .elseClause ((hf _).trans hkeyword) ih
  | noStatement => exact .noStatement
  | @statements next first more _ _ ihfirst ihmore =>
    rw [mapAll_append]
    have hfirst : Derives .statement (firstKind (mapAll f more) next) (mapAll f first) := by
      rwa [firstKind_mapAll hf]
    exact .statements hfirst ihmore

theorem IsUnit.map {shape : Shape} (h : IsUnit shape) : IsUnit (shape.map f) := by
  obtain ⟨body, last, rfl, hbody, hlast⟩ := h
  refine ⟨mapAll f body, f last, ?_, hbody.map hf, (hf last).trans hlast⟩
  rw [Shape.map, mapAll_append, mapAll_leaf, mapAll_nil]

end Map

end Grammar

/-! ## Texts with the same kinds -/

/-- Lexemes that differ from each other can be exchanged for any others of the same kinds and
texts. -/
theorem Lexeme.exists_map_eq {lexemes others : List Lexeme} (h : lexemes.Nodup)
    (hplain : others.map plain = lexemes.map plain) :
    ∃ f : Lexeme → Lexeme, (∀ lexeme, (f lexeme).plain = lexeme.plain) ∧
      lexemes.map f = others := by
  induction lexemes generalizing others with
  | nil => exact ⟨id, fun _ => rfl, (List.map_eq_nil_iff.mp hplain).symm⟩
  | cons lexeme rest ih =>
    obtain ⟨other, more, rfl, hother, hmore⟩ := List.map_eq_cons_iff.mp hplain
    obtain ⟨hnew, hrest⟩ := List.nodup_cons.mp h
    obtain ⟨f, hf, hmap⟩ := ih hrest hmore
    refine ⟨fun one => if one = lexeme then other else f one, fun one => ?_, ?_⟩
    · show (if one = lexeme then other else f one).plain = one.plain
      by_cases hone : one = lexeme
      · rw [if_pos hone, hother, hone]
      · rw [if_neg hone, hf]
    · rw [List.map_cons, if_pos rfl, ← hmap]
      refine congrArg (other :: ·) (List.map_congr_left fun one hone => if_neg ?_)
      rintro rfl
      exact hnew hone

namespace Tree

open Grammar

/-- **A text with the lexemes of an accepted one**, up to places and trivia, is accepted, and
its tree is the same up to these. -/
theorem exists_ofText_of_plain {text other : String} {tree : Tree} {lexemes : List Lexeme}
    (h : ofText text = .ok tree) (hlexemes : Lexeme.ofText other = .ok lexemes)
    (hplain : lexemes.map Lexeme.plain = (tree.tokens.map Token.lexeme).map Lexeme.plain) :
    ∃ built, ofText other = .ok built ∧ built.tokens.map Token.lexeme = lexemes ∧
      built.root.shape.map Lexeme.plain = tree.root.shape.map Lexeme.plain := by
  obtain ⟨hunit, hscan, -⟩ := ofText_sound h
  obtain ⟨f, hf, hmap⟩ := Lexeme.exists_map_eq (Lexeme.scanned_of_scan hscan).nodup hplain
  have hkind : ∀ lexeme, (f lexeme).kind = lexeme.kind :=
    fun lexeme => show (f lexeme).plain.kind = lexeme.plain.kind by rw [hf]
  have hshape : tree.root.shape.lexemes = tree.tokens.map Token.lexeme := Node.lexemes_shape _
  have hother : (tree.root.shape.map f).lexemes = lexemes := by
    rw [Shape.lexemes_map, hshape, hmap]
  obtain ⟨built, hbuilt, hroot⟩ := exists_ofCalls_of_isUnit (hunit.map hkind) (hother ▸ hlexemes)
  refine ⟨built, ?_, ?_, ?_⟩
  · exact ofText_eq_ok_iff_ofCalls.mpr
      ⟨_, Shape.ofText_eq_ok_iff_isUnit.mpr ⟨_, hlexemes, hunit.map hkind, hother⟩, hbuilt⟩
  · rw [← hother, ← hroot, Node.lexemes_shape]
    rfl
  · rw [hroot, Shape.map_map]
    exact congrArg (tree.root.shape.map ·) (funext hf)

end Tree
end SpacingLint
