import Mathlib.Data.List.Chain
import SpacingLint.Proofs.Source.Parsing

/-! # The language of kinds

Without foresight the grammar of units is a few lines over kinds of tokens, with optional parts
in brackets:

* a unit is `statement* endOfFile`;
* a statement is an `if` statement, `'{' statement* '}'`, or `expression ';'`;
* an `if` statement is `'if' [ '(' expression ')' ] [ statement ] [ 'else' statement ]`;
* an expression is `primary ( operator primary )*`;
* a primary is a name, a number, or `'(' expression ')'`.

In this **strict** form the keyword `else` guards a statement.  The parser reads more: before
the end of the file, a closing brace and another `else` it lets the statement be left out, as
it does behind `if`.  The **loose** form has one rule more for that (`Generates.bareElse`).
Every accepted text obeys the loose form (`Derives.generates`), and the strict one exactly if
no `else` in it stands before what ends a statement (`Generates.elsesGuard`).
-/
namespace SpacingLint
namespace Grammar

open Shape

/-- The symbols of the grammar. -/
inductive Symbol where
  | unit
  | statements
  | statement
  /-- `[ '(' expression ')' ]` -/
  | condition
  /-- `[ statement ]` -/
  | branch
  /-- `[ 'else' statement ]` -/
  | otherwise
  | expression
  /-- `( operator primary )*` -/
  | operations
  | primary

/-- **The grammar over kinds**, in its loose form or in its strict one. -/
inductive Generates (loose : Bool) : Symbol → List Kind → Prop
  | unit {body : List Kind} (hbody : Generates loose .statements body) :
      Generates loose .unit (body ++ [.endOfFile])
  | noStatement : Generates loose .statements []
  | statements {first more : List Kind} (hfirst : Generates loose .statement first)
      (hmore : Generates loose .statements more) : Generates loose .statements (first ++ more)
  | ifStatement {test body otherwise : List Kind} (htest : Generates loose .condition test)
      (hbody : Generates loose .branch body) (hotherwise : Generates loose .otherwise otherwise) :
      Generates loose .statement (.ifKeyword :: (test ++ (body ++ otherwise)))
  | block {body : List Kind} (hbody : Generates loose .statements body) :
      Generates loose .statement (.openBrace :: (body ++ [.closeBrace]))
  | expressionStatement {value : List Kind} (hvalue : Generates loose .expression value) :
      Generates loose .statement (value ++ [.semicolon])
  | noCondition : Generates loose .condition []
  | condition {value : List Kind} (hvalue : Generates loose .expression value) :
      Generates loose .condition (.openParen :: (value ++ [.closeParen]))
  | noBranch : Generates loose .branch []
  | branch {body : List Kind} (hbody : Generates loose .statement body) :
      Generates loose .branch body
  | noElse : Generates loose .otherwise []
  | elseStatement {body : List Kind} (hbody : Generates loose .statement body) :
      Generates loose .otherwise (.elseKeyword :: body)
  | bareElse (hloose : loose = true) : Generates loose .otherwise [.elseKeyword]
  | expression {first more : List Kind} (hfirst : Generates loose .primary first)
      (hmore : Generates loose .operations more) : Generates loose .expression (first ++ more)
  | noOperation : Generates loose .operations []
  | operation {operand more : List Kind} (hoperand : Generates loose .primary operand)
      (hmore : Generates loose .operations more) :
      Generates loose .operations (.operator :: (operand ++ more))
  | identifier : Generates loose .primary [.identifier]
  | number : Generates loose .primary [.numberLiteral]
  | parenthesised {value : List Kind} (hvalue : Generates loose .expression value) :
      Generates loose .primary (.openParen :: (value ++ [.closeParen]))

/-! ## Keywords that guard nothing -/

/-- No `else` among some kinds stands right before one that ends a statement. -/
def ElsesGuard (kinds : List Kind) : Prop :=
  kinds.IsChain fun kind next => kind = .elseKeyword → ¬ EndsStatement next

instance (kinds : List Kind) : Decidable (ElsesGuard kinds) :=
  inferInstanceAs (Decidable (List.IsChain _ kinds))

theorem elsesGuard_cons_iff {kind : Kind} (hkind : kind ≠ .elseKeyword) {kinds : List Kind} :
    ElsesGuard (kind :: kinds) ↔ ElsesGuard kinds := by
  rw [ElsesGuard, List.isChain_cons]
  exact and_iff_right fun _ _ heq => absurd heq hkind

theorem ElsesGuard.cons {kinds : List Kind} (h : ElsesGuard kinds) (kind : Kind)
    (hkind : kind ≠ .elseKeyword := by decide) : ElsesGuard (kind :: kinds) :=
  (elsesGuard_cons_iff hkind).mpr h

/-- Statements, expressions and primaries do not begin with a kind that ends a statement. -/
theorem Generates.starts {loose : Bool} {symbol : Symbol} {kinds : List Kind}
    (h : Generates loose symbol kinds)
    (hsymbol : symbol = .statement ∨ symbol = .expression ∨ symbol = .primary) :
    ∃ first rest, kinds = first :: rest ∧ ¬ EndsStatement first := by
  induction h with
  | ifStatement => exact ⟨_, _, rfl, by decide⟩
  | block => exact ⟨_, _, rfl, by decide⟩
  | expressionStatement _ ih =>
    obtain ⟨first, rest, rfl, hfirst⟩ := ih (.inr (.inl rfl))
    exact ⟨first, _, rfl, hfirst⟩
  | expression _ _ ihfirst =>
    obtain ⟨first, rest, rfl, hfirst⟩ := ihfirst (.inr (.inr rfl))
    exact ⟨first, _, rfl, hfirst⟩
  | identifier => exact ⟨_, _, rfl, by decide⟩
  | number => exact ⟨_, _, rfl, by decide⟩
  | parenthesised => exact ⟨_, _, rfl, by decide⟩
  | _ => rcases hsymbol with h | h | h <;> cases h

/-- **In the strict form every `else` guards a statement**, whatever follows. -/
theorem Generates.elsesGuard {symbol : Symbol} {kinds : List Kind}
    (h : Generates false symbol kinds) {more : List Kind} (hmore : ElsesGuard more) :
    ElsesGuard (kinds ++ more) := by
  induction h generalizing more with
  | unit _ ih =>
    rw [List.append_assoc]
    exact ih (hmore.cons .endOfFile)
  | statements _ _ ihfirst ihmore =>
    rw [List.append_assoc]
    exact ihfirst (ihmore hmore)
  | ifStatement _ _ _ ihtest ihbody ihotherwise =>
    rw [List.cons_append, List.append_assoc, List.append_assoc]
    exact (ihtest (ihbody (ihotherwise hmore))).cons .ifKeyword
  | block _ ih =>
    rw [List.cons_append, List.append_assoc]
    exact (ih (hmore.cons .closeBrace)).cons .openBrace
  | expressionStatement _ ih =>
    rw [List.append_assoc]
    exact ih (hmore.cons .semicolon)
  | condition _ ih =>
    rw [List.cons_append, List.append_assoc]
    exact (ih (hmore.cons .closeParen)).cons .openParen
  | branch _ ih => exact ih hmore
  | elseStatement hbody ih =>
    obtain ⟨first, rest, rfl, hfirst⟩ := hbody.starts (.inl rfl)
    exact .cons_cons (fun _ => hfirst) (ih hmore)
  | bareElse hloose => cases hloose
  | expression _ _ ihfirst ihmore =>
    rw [List.append_assoc]
    exact ihfirst (ihmore hmore)
  | operation _ _ ihoperand ihmore =>
    rw [List.cons_append, List.append_assoc]
    exact (ihoperand (ihmore hmore)).cons .operator
  | identifier => exact hmore.cons .identifier
  | number => exact hmore.cons .numberLiteral
  | parenthesised _ ih =>
    rw [List.cons_append, List.append_assoc]
    exact (ih (hmore.cons .closeParen)).cons .openParen
  | _ => exact hmore

theorem Generates.of_branch {loose : Bool} {body : List Kind}
    (h : Generates loose .branch body) (hne : body ≠ []) : Generates loose .statement body := by
  cases h with
  | noBranch => exact absurd rfl hne
  | branch hbody => exact hbody

/-! ## What is parsed is generated -/

/-- The kinds of the lexemes of some shapes. -/
def kinds (shapes : List Shape) : List Kind := (allLexemes shapes).map Lexeme.kind

@[simp] theorem kinds_nil : kinds [] = [] := rfl

@[simp] theorem kinds_leaf (lexeme : Lexeme) (more : List Shape) :
    kinds (.leaf lexeme :: more) = lexeme.kind :: kinds more := rfl

@[simp] theorem kinds_append (shapes more : List Shape) :
    kinds (shapes ++ more) = kinds shapes ++ kinds more := by
  simp [kinds]

@[simp] theorem kinds_node (kind : Kind) (children : List Shape) :
    kinds [.node kind children] = kinds children := by
  simp [kinds]

/-- Some shapes begin with their first kind, also when more follows them. -/
theorem exists_kinds_append (shapes : List Shape) (next : Kind) (more : List Kind) :
    ∃ rest, kinds shapes ++ next :: more = firstKind shapes next :: rest := by
  unfold kinds firstKind
  cases allLexemes shapes with
  | nil => exact ⟨more, rfl⟩
  | cons lexeme rest => exact ⟨_, rfl⟩

/-- The symbol of a phrase. -/
def Phrase.symbol : Phrase → Symbol
  | operand => .primary
  | operations => .operations
  | expression => .expression

/-- The symbol of a clause. -/
def Clause.symbol : Clause → Symbol
  | statement => .statement
  | condition => .condition
  | guarded => .branch
  | otherwise => .otherwise
  | statements => .statements

theorem Expresses.generates {phrase : Phrase} {shapes : List Shape} (h : Expresses phrase shapes)
    (loose : Bool) : Generates loose phrase.symbol (kinds shapes) := by
  induction h with
  | @atom lexeme hkind =>
    rw [kinds_leaf, kinds_nil]
    rcases hkind with hkind | hkind
    · rw [hkind]
      exact .identifier
    · rw [hkind]
      exact .number
  | parenthesised hopening _ hclosing ih =>
    simp only [kinds_leaf, kinds_append, kinds_nil, hopening, hclosing]
    exact .parenthesised ih
  | noOperation => exact .noOperation
  | operation hoperator _ _ ihoperand ihmore =>
    simp only [kinds_leaf, kinds_append, hoperator]
    exact .operation ihoperand ihmore
  | expression _ _ ihfirst ihmore =>
    rw [kinds_node, kinds_append]
    exact .expression ihfirst ihmore

theorem Derives.kinds_ne_nil {next : Kind} {shapes : List Shape}
    (h : Derives .statement next shapes) : kinds shapes ≠ [] := by
  intro hnil
  have hends := (h.starts .endOfFile).not_ends
  rw [firstKind, List.map_eq_nil_iff.mp hnil] at hends
  exact hends (.inl rfl)

/-- **A clause is generated**, in the strict form if every `else` in it and before what follows
guards a statement. -/
theorem Derives.generates {clause : Clause} {next : Kind} {shapes : List Shape}
    (h : Derives clause next shapes) {loose : Bool} {more : List Kind}
    (hguard : loose = true ∨ ElsesGuard (kinds shapes ++ next :: more)) :
    Generates loose clause.symbol (kinds shapes) := by
  induction h generalizing more with
  | @ifStatement next keyword test body otherwise hkeyword _ _ _ ihtest ihbody ihotherwise =>
    simp only [kinds_node, kinds_leaf, kinds_append, hkeyword, List.cons_append,
      List.append_assoc] at hguard ⊢
    have hrest := hguard.imp_right (elsesGuard_cons_iff (by decide)).mp
    -- What follows a part begins with what the parts behind it begin with.
    obtain ⟨behindBody, hbehindBody⟩ := exists_kinds_append otherwise next more
    obtain ⟨behindTest, hbehindTest⟩ := exists_kinds_append (body ++ otherwise) next more
    rw [kinds_append, List.append_assoc] at hbehindTest
    have hbehind := hrest.imp_right List.IsChain.right_of_append
    have hotherwise := hbehind.imp_right List.IsChain.right_of_append
    rw [hbehindTest] at hrest
    rw [hbehindBody] at hbehind
    exact .ifStatement (ihtest hrest) (ihbody hbehind) (ihotherwise hotherwise)
  | block hopening _ hclosing ih =>
    simp only [kinds_node, kinds_leaf, kinds_append, kinds_nil, hopening, hclosing,
      List.cons_append, List.append_assoc] at hguard ⊢
    exact .block (ih (hguard.imp_right (elsesGuard_cons_iff (by decide)).mp))
  | expressionStatement hvalue hsemicolon =>
    simp only [kinds_node, kinds_leaf, kinds_append, kinds_nil, hsemicolon]
    exact .expressionStatement (hvalue.generates loose)
  | noCondition => exact .noCondition
  | condition hopening hinner hclosing =>
    simp only [kinds_leaf, kinds_append, kinds_nil, hopening, hclosing]
    exact .condition (hinner.generates loose)
  | unguarded => exact .noBranch
  | guarded _ ih => exact .branch (ih hguard)
  | noElse => exact .noElse
  | @elseClause next keyword body hkeyword hbody ih =>
    simp only [kinds_node, kinds_leaf, hkeyword] at hguard ⊢
    cases hbody with
    | unguarded hnext =>
      -- The keyword stands right before what follows, and that ends a statement.
      rcases hguard with hloose | hguard
      · exact .bareElse hloose
      · exact absurd hnext ((List.isChain_cons.mp hguard).1 next rfl rfl)
    | guarded hstatement =>
      have hbranch := ih (hguard.imp_right List.IsChain.tail)
      exact .elseStatement (hbranch.of_branch (hstatement.kinds_ne_nil))
  | noStatement => exact .noStatement
  | @statements next first rest _ _ ihfirst ihrest =>
    rw [kinds_append, List.append_assoc] at hguard
    obtain ⟨behind, hbehind⟩ := exists_kinds_append rest next more
    rw [kinds_append]
    have hrest := hguard.imp_right List.IsChain.right_of_append
    rw [hbehind] at hguard
    exact .statements (ihfirst hguard) (ihrest hrest)

/-- A unit is generated, in the strict form if every `else` in it guards a statement. -/
theorem IsUnit.generates {shape : Shape} (h : IsUnit shape) {loose : Bool}
    (hguard : loose = true ∨ ElsesGuard (shape.lexemes.map Lexeme.kind)) :
    Generates loose .unit (shape.lexemes.map Lexeme.kind) := by
  obtain ⟨body, last, rfl, hbody, hlast⟩ := h
  have hkinds : (Shape.node .compilationUnit (body ++ [.leaf last])).lexemes.map Lexeme.kind =
      kinds body ++ [.endOfFile] := by
    rw [← hlast]
    exact kinds_append body [.leaf last]
  rw [hkinds] at hguard ⊢
  exact .unit (hbody.generates hguard)

end Grammar

namespace Tree

open Grammar

/-- **The language of accepted texts.**  The kinds of the tokens of a text that has a tree are
generated by the loose form of the grammar.  The strict form generates them exactly if no `else`
stands right before the end of the file, a closing brace or another `else`. -/
theorem generates_of_ofText {text : String} {tree : Tree} (h : ofText text = .ok tree) :
    ∃ lexemes, Lexeme.ofText text = .ok lexemes ∧
      Generates true .unit (lexemes.map Lexeme.kind) ∧
      (Generates false .unit (lexemes.map Lexeme.kind) ↔
        ElsesGuard (lexemes.map Lexeme.kind)) := by
  obtain ⟨hunit, hlexemes, -⟩ := ofText_sound h
  have hshape : tree.root.shape.lexemes = tree.tokens.map Token.lexeme := tree.root.lexemes_shape
  refine ⟨_, hlexemes, ?_⟩
  rw [← hshape]
  refine ⟨hunit.generates (.inl rfl), fun hstrict => ?_, fun hguard => ?_⟩
  · simpa using hstrict.elsesGuard .nil
  · exact hunit.generates (.inr hguard)

/-- Statements that are left out behind `if` and in front of `else`, and an `else` that guards
nothing before a closing brace. -/
theorem generates_of_ofText_braces : ∃ tree lexemes,
    ofText "if else if (a) { if else } else b;" = .ok tree ∧
      Lexeme.ofText "if else if (a) { if else } else b;" = .ok lexemes ∧
      Generates true .unit (lexemes.map Lexeme.kind) ∧
      ¬ Generates false .unit (lexemes.map Lexeme.kind) := by
  have htext : (ofText "if else if (a) { if else } else b;").toOption.isSome := by
    decide +kernel
  have hkinds : (Lexeme.ofText "if else if (a) { if else } else b;").toOption.map
      (fun lexemes => decide (ElsesGuard (lexemes.map Lexeme.kind))) = some false := by
    decide +kernel
  obtain ⟨tree, htree⟩ := Option.isSome_iff_exists.mp htext
  obtain ⟨lexemes, hlexemes, hloose, hstrict⟩ := generates_of_ofText (eq_ok_of_toOption htree)
  rw [hlexemes] at hkinds
  refine ⟨tree, lexemes, eq_ok_of_toOption htree, hlexemes, hloose, fun hgenerates => ?_⟩
  exact of_decide_eq_false (Option.some.inj hkinds) (hstrict.mp hgenerates)

/-- **Not every accepted text obeys the strict form**: this one ends with an `else`. -/
theorem not_generates_of_last_else : ∃ tree, ofText "if (x) y; else" = .ok tree ∧
    ¬ Generates false .unit (tree.tokens.map Token.kind) := by
  have htext : (ofText "if (x) y; else").toOption.map
      (fun tree => decide (ElsesGuard (tree.tokens.map Token.kind))) = some false := by
    decide +kernel
  obtain ⟨tree, htree, hkinds⟩ := Option.map_eq_some_iff.mp htext
  refine ⟨tree, eq_ok_of_toOption htree, fun hgenerates => of_decide_eq_false hkinds ?_⟩
  simpa using hgenerates.elsesGuard .nil

end Tree
end SpacingLint
