import SpacingLint.Proofs.Outcome
import SpacingLint.Proofs.Source.Grammar

/-! # The parser reads the grammar

The grammar is stated twice: `Parser` reads it off a list of lexemes, one lexeme of
foresight at a time, and `Grammar` relates constructs to shapes.  The two agree.

`Parser.Yields` takes each parsing function as a relation, with one lemma per function that
takes it apart into the functions it calls.  From these lemmas alone, what is read obeys
the grammar and uses up exactly its lexemes (by recursion on the lexemes that are left),
and what obeys the grammar is read back as it is (by induction on the rules).
-/
namespace SpacingLint

namespace Parser

open Grammar Shape

/-! ## The parsing functions as relations -/

/-- A result holds some shapes and leaves some lexemes. -/
def Yields {bound : Nat} (result : Except SourceError (Parsed bound)) (shapes : List Shape)
    (rest : List Lexeme) : Prop :=
  ∃ parsed, result = .ok parsed ∧ parsed.shapes = shapes ∧ parsed.rest = rest

section Yields

variable {bound after : Nat} {ls rest : List Lexeme} {shapes : List Shape}

theorem Yields.length_lt {result : Except SourceError (Parsed bound)}
    (h : Yields result shapes rest) : rest.length < bound := by
  obtain ⟨parsed, -, -, rfl⟩ := h
  exact parsed.rest_lt

theorem yields_ok {parsed : Parsed bound} :
    Yields (.ok parsed) shapes rest ↔ parsed.shapes = shapes ∧ parsed.rest = rest := by
  constructor
  · rintro ⟨_, heq, h⟩
    cases heq
    exact h
  · exact fun h => ⟨parsed, rfl, h⟩

theorem not_yields_error {error : SourceError} :
    ¬ Yields (.error error : Except SourceError (Parsed bound)) shapes rest := by
  rintro ⟨_, heq, _⟩
  cases heq

/-- What is read in two steps. -/
theorem yields_bind {first : Except SourceError (Parsed bound)}
    {more : Parsed bound → Except SourceError (Parsed after)}
    {later : List Shape → List Lexeme → Prop}
    (h : ∀ parsed, Yields (more parsed) shapes rest ↔ later parsed.shapes parsed.rest) :
    Yields (first >>= more) shapes rest ↔
      ∃ before mid, Yields first before mid ∧ later before mid := by
  unfold Yields
  simp only [bind_eq_ok_iff]
  constructor
  · rintro ⟨result, ⟨parsed, hfirst, hmore⟩, hshapes, hrest⟩
    exact ⟨_, _, ⟨parsed, hfirst, rfl, rfl⟩, (h parsed).mp ⟨result, hmore, hshapes, hrest⟩⟩
  · rintro ⟨_, _, ⟨parsed, hfirst, rfl, rfl⟩, hlater⟩
    obtain ⟨result, hmore, hshapes, hrest⟩ := (h parsed).mpr hlater
    exact ⟨result, ⟨parsed, hfirst, hmore⟩, hshapes, hrest⟩

theorem yields_bump :
    Yields (bump ls) shapes rest ↔ ∃ lexeme, ls = lexeme :: rest ∧ shapes = [.leaf lexeme] := by
  cases ls with
  | nil =>
    constructor
    · exact fun h => absurd h not_yields_error
    · rintro ⟨_, heq, _⟩
      cases heq
  | cons lexeme ls =>
    rw [bump, yields_ok]
    constructor
    · rintro ⟨rfl, rfl⟩
      exact ⟨lexeme, rfl, rfl⟩
    · rintro ⟨_, heq, rfl⟩
      cases heq
      exact ⟨rfl, rfl⟩

theorem yields_leaf (lexeme : Lexeme) (ls : List Lexeme) :
    Yields (bump (lexeme :: ls)) [.leaf lexeme] ls :=
  yields_bump.mpr ⟨lexeme, rfl, rfl⟩

theorem yields_expect {kind : Kind} {expected : Expectation} :
    Yields (expect kind expected ls) shapes rest ↔
      ∃ lexeme, lexeme.kind = kind ∧ ls = lexeme :: rest ∧ shapes = [.leaf lexeme] := by
  unfold expect
  split
  · next hkind =>
    rw [yields_bump]
    constructor
    · rintro ⟨lexeme, rfl, rfl⟩
      exact ⟨lexeme, hkind, rfl, rfl⟩
    · rintro ⟨lexeme, -, h⟩
      exact ⟨lexeme, h⟩
  · next hkind =>
    constructor
    · exact fun h => absurd h not_yields_error
    · rintro ⟨lexeme, hlexeme, rfl, -⟩
      exact absurd hlexeme hkind

end Yields

section Constructs

variable {ls rest : List Lexeme} {shapes : List Shape}

theorem yields_expression :
    Yields (expression ls) shapes rest ↔ ∃ first mid, Yields (operand ls) first mid ∧
      ∃ more last, Yields (operations mid) more last ∧
        [.node .expression (first ++ more)] = shapes ∧ last = rest := by
  rw [expression]
  exact yields_bind fun _ => yields_bind fun _ => yields_ok

theorem yields_operations :
    Yields (operations ls) shapes rest ↔
      if peek ls = .operator then
        ∃ operator after, Yields (bump ls) operator after ∧
          ∃ next mid, Yields (operand after) next mid ∧
            ∃ more last, Yields (operations mid) more last ∧
              operator ++ next ++ more = shapes ∧ last = rest
      else [] = shapes ∧ ls = rest := by
  rw [operations]
  split
  · exact yields_bind fun _ => yields_bind fun _ => yields_bind fun _ => yields_ok
  · exact yields_ok

/-- An expression in parentheses is read. -/
def Parenthesised (ls : List Lexeme) (shapes : List Shape) (rest : List Lexeme) : Prop :=
  ∃ opening closing inner after, ls = opening :: after ∧
    Yields (expression after) inner (closing :: rest) ∧ closing.kind = .closeParen ∧
      shapes = .leaf opening :: (inner ++ [.leaf closing])

theorem parenthesised_iff :
    Parenthesised ls shapes rest ↔
      ∃ opening after, Yields (bump ls) opening after ∧
        ∃ inner mid, Yields (expression after) inner mid ∧
          ∃ closing last, Yields (expect .closeParen .closeParen mid) closing last ∧
            opening ++ inner ++ closing = shapes ∧ last = rest := by
  constructor
  · rintro ⟨opening, closing, inner, after, rfl, hinner, hclosing, rfl⟩
    exact ⟨_, _, yields_leaf .., _, _, hinner, _, _, yields_expect.mpr ⟨_, hclosing, rfl, rfl⟩,
      rfl, rfl⟩
  · rintro ⟨_, after, hopening, inner, mid, hinner, _, _, hclosing, rfl, rfl⟩
    obtain ⟨opening, rfl, rfl⟩ := yields_bump.mp hopening
    obtain ⟨closing, hkind, rfl, rfl⟩ := yields_expect.mp hclosing
    exact ⟨opening, closing, inner, after, rfl, hinner, hkind, rfl⟩

theorem yields_operand :
    Yields (operand ls) shapes rest ↔
      match peek ls with
      | .identifier | .numberLiteral => Yields (bump ls) shapes rest
      | .openParen => Parenthesised ls shapes rest
      | _ => False := by
  rw [operand]
  generalize peek ls = kind
  cases kind
  case identifier => exact Iff.rfl
  case numberLiteral => exact Iff.rfl
  case openParen =>
    exact (yields_bind fun _ => yields_bind fun _ => yields_bind fun _ => yields_ok).trans
      parenthesised_iff.symm
  all_goals exact iff_of_false not_yields_error id

/-! ### Statements -/

theorem yields_condition :
    Yields (condition ls) shapes rest ↔
      if peek ls = .openParen then Parenthesised ls shapes rest else [] = shapes ∧ ls = rest := by
  unfold condition
  split
  · exact (yields_bind fun _ => yields_bind fun _ => yields_bind fun _ => yields_ok).trans
      parenthesised_iff.symm
  · exact yields_ok

theorem yields_expressionStatement :
    Yields (expressionStatement ls) shapes rest ↔
      ∃ value mid, Yields (expression ls) value mid ∧
        ∃ semicolon last, Yields (expect .semicolon .semicolon mid) semicolon last ∧
          [.node .expressionStatement (value ++ semicolon)] = shapes ∧ last = rest :=
  yields_bind fun _ => yields_bind fun _ => yields_ok

theorem yields_statement :
    Yields (statement ls) shapes rest ↔
      match peek ls with
      | .ifKeyword => Yields (ifStatement ls) shapes rest
      | .openBrace => Yields (block ls) shapes rest
      | _ => Yields (expressionStatement ls) shapes rest := by
  rw [statement]
  generalize peek ls = kind
  cases kind <;> exact Iff.rfl

theorem yields_statement_of_starts (h : StartsExpression (peek ls)) :
    Yields (statement ls) shapes rest ↔ Yields (expressionStatement ls) shapes rest := by
  rw [yields_statement]
  rcases h with h | h | h <;> rw [h]

theorem yields_ifStatement :
    Yields (ifStatement ls) shapes rest ↔
      ∃ keyword after, Yields (bump ls) keyword after ∧
        ∃ test behind, Yields (condition after) test behind ∧
          ∃ body mid, Yields (guarded behind) body mid ∧
            ∃ otherwise last, Yields (elseClause mid) otherwise last ∧
              [.node .ifStatement (keyword ++ test ++ body ++ otherwise)] = shapes ∧
                last = rest := by
  rw [ifStatement]
  exact yields_bind fun _ => yields_bind fun _ => yields_bind fun _ => yields_bind fun _ =>
    yields_ok

theorem yields_elseClause :
    Yields (elseClause ls) shapes rest ↔
      if peek ls = .elseKeyword then
        ∃ keyword after, Yields (bump ls) keyword after ∧
          ∃ body last, Yields (guarded after) body last ∧
            [.node .elseClause (keyword ++ body)] = shapes ∧ last = rest
      else [] = shapes ∧ ls = rest := by
  rw [elseClause]
  split
  · exact yields_bind fun _ => yields_bind fun _ => yields_ok
  · exact yields_ok

/-- The test for what ends a statement is right about every kind. -/
theorem endsStatement_iff {kind : Kind} : endsStatement kind = true ↔ EndsStatement kind := by
  cases kind <;> decide

theorem yields_guarded :
    Yields (guarded ls) shapes rest ↔
      if EndsStatement (peek ls) then [] = shapes ∧ ls = rest
      else ∃ body last, Yields (statement ls) body last ∧ body = shapes ∧ last = rest := by
  rw [guarded]
  by_cases hends : EndsStatement (peek ls)
  · rw [if_pos hends, if_pos (endsStatement_iff.mpr hends)]
    exact yields_ok
  · rw [if_neg hends, if_neg (mt endsStatement_iff.mp hends)]
    exact yields_bind fun _ => yields_ok

theorem yields_block :
    Yields (block ls) shapes rest ↔
      ∃ opening after, Yields (expect .openBrace .openBrace ls) opening after ∧
        ∃ body mid, Yields (statements true after) body mid ∧
          ∃ closing last, Yields (expect .closeBrace .closeBrace mid) closing last ∧
            [.node .block (opening ++ body ++ closing)] = shapes ∧ last = rest := by
  rw [block]
  exact yields_bind fun _ => yields_bind fun _ => yields_bind fun _ => yields_ok

theorem yields_statements {inBlock : Bool} :
    Yields (statements inBlock ls) shapes rest ↔
      if peek ls = .endOfFile || (inBlock && peek ls = .closeBrace) then
        [] = shapes ∧ ls = rest
      else
        ∃ first mid, Yields (statement ls) first mid ∧
          ∃ more last, Yields (statements inBlock mid) more last ∧
            first ++ more = shapes ∧ last = rest := by
  rw [statements]
  split
  · exact yields_ok
  · exact yields_bind fun _ => yields_bind fun _ => yields_ok

end Constructs

/-! ## What is read obeys the grammar -/

mutual

theorem expression_sound {ls rest : List Lexeme} {shapes : List Shape}
    (h : Yields (expression ls) shapes rest) :
    Expresses .expression shapes ∧ allLexemes shapes ++ rest = ls := by
  obtain ⟨first, mid, hfirst, more, _, hmore, rfl, rfl⟩ := yields_expression.mp h
  have hmid := hfirst.length_lt
  obtain ⟨hoperand, hls⟩ := operand_sound hfirst
  obtain ⟨hoperations, hrest⟩ := operations_sound hmore
  exact ⟨.expression hoperand hoperations, by simp [← hls, ← hrest]⟩
termination_by 2 * ls.length + 1

theorem operations_sound {ls rest : List Lexeme} {shapes : List Shape}
    (h : Yields (operations ls) shapes rest) :
    Expresses .operations shapes ∧ allLexemes shapes ++ rest = ls := by
  rw [yields_operations] at h
  split at h
  · next hpeek =>
    obtain ⟨_, after, hoperator, next, mid, hnext, more, _, hmore, rfl, rfl⟩ := h
    have hafter := hoperator.length_lt
    have hmid := hnext.length_lt
    obtain ⟨operator, hls, rfl⟩ := yields_bump.mp hoperator
    obtain ⟨hoperand, hnextEq⟩ := operand_sound hnext
    obtain ⟨hoperations, hrest⟩ := operations_sound hmore
    rw [hls] at hpeek
    exact ⟨.operation hpeek hoperand hoperations, by
      simp [hls, ← hnextEq, ← hrest]⟩
  · obtain ⟨rfl, rfl⟩ := h
    exact ⟨.noOperation, rfl⟩
termination_by 2 * ls.length

theorem operand_sound {ls rest : List Lexeme} {shapes : List Shape}
    (h : Yields (operand ls) shapes rest) :
    Expresses .operand shapes ∧ allLexemes shapes ++ rest = ls := by
  rw [yields_operand] at h
  split at h
  · next hpeek =>
    obtain ⟨lexeme, rfl, rfl⟩ := yields_bump.mp h
    exact ⟨.atom (.inl hpeek), rfl⟩
  · next hpeek =>
    obtain ⟨lexeme, rfl, rfl⟩ := yields_bump.mp h
    exact ⟨.atom (.inr hpeek), rfl⟩
  · next hpeek =>
    obtain ⟨opening, closing, inner, after, hls, hinner, hkind, rfl⟩ := h
    have hafter : after.length < ls.length := by simp [hls]
    obtain ⟨hexpression, hrest⟩ := expression_sound hinner
    rw [hls] at hpeek
    exact ⟨.parenthesised hpeek hexpression hkind, by simp [hls, ← hrest]⟩
  · exact h.elim
termination_by 2 * ls.length

end

theorem condition_sound {ls rest : List Lexeme} {shapes : List Shape}
    (h : Yields (condition ls) shapes rest) :
    Derives .condition (peek rest) shapes ∧ allLexemes shapes ++ rest = ls := by
  rw [yields_condition] at h
  split at h
  · next hpeek =>
    obtain ⟨opening, closing, inner, after, rfl, hinner, hkind, rfl⟩ := h
    obtain ⟨hexpression, rfl⟩ := expression_sound hinner
    exact ⟨.condition hpeek hexpression hkind, by simp⟩
  · next hpeek =>
    obtain ⟨rfl, rfl⟩ := h
    exact ⟨.noCondition hpeek, rfl⟩

theorem expressionStatement_sound {ls rest : List Lexeme} {shapes : List Shape}
    (h : Yields (expressionStatement ls) shapes rest) :
    Derives .statement (peek rest) shapes ∧ allLexemes shapes ++ rest = ls := by
  obtain ⟨value, mid, hvalue, _, _, hsemicolon, rfl, rfl⟩ := yields_expressionStatement.mp h
  obtain ⟨semicolon, hkind, rfl, rfl⟩ := yields_expect.mp hsemicolon
  obtain ⟨hexpression, rfl⟩ := expression_sound hvalue
  exact ⟨.expressionStatement hexpression hkind, by simp⟩

mutual

theorem statement_sound {ls rest : List Lexeme} {shapes : List Shape}
    (h : Yields (statement ls) shapes rest) :
    Derives .statement (peek rest) shapes ∧ allLexemes shapes ++ rest = ls := by
  rw [yields_statement] at h
  split at h
  · next hpeek => exact ifStatement_sound h hpeek
  · exact block_sound h
  · exact expressionStatement_sound h
termination_by 3 * ls.length + 1

theorem ifStatement_sound {ls rest : List Lexeme} {shapes : List Shape}
    (h : Yields (ifStatement ls) shapes rest) (hpeek : peek ls = .ifKeyword) :
    Derives .statement (peek rest) shapes ∧ allLexemes shapes ++ rest = ls := by
  obtain ⟨_, after, hkeyword, test, behind, htest, body, mid, hbody, otherwise, _, hotherwise,
    rfl, rfl⟩ := yields_ifStatement.mp h
  have hafter := hkeyword.length_lt
  have hbehind := htest.length_lt
  have hmid := hbody.length_lt
  obtain ⟨keyword, hls, rfl⟩ := yields_bump.mp hkeyword
  obtain ⟨hcondition, htestEq⟩ := condition_sound htest
  obtain ⟨hguarded, hbodyEq⟩ := guarded_sound hbody
  obtain ⟨helse, hotherwiseEq⟩ := elseClause_sound hotherwise
  rw [hls] at hpeek
  -- What follows a part is what the later parts and the rest begin with.
  rw [← hbodyEq, ← hotherwiseEq, ← List.append_assoc, ← allLexemes_append, peek_append]
    at hcondition
  rw [← hotherwiseEq, peek_append] at hguarded
  refine ⟨?_, by simp [hls, ← htestEq, ← hbodyEq, ← hotherwiseEq]⟩
  rw [List.append_assoc, List.append_assoc, List.singleton_append]
  exact .ifStatement hpeek hcondition hguarded helse
termination_by 3 * ls.length

theorem elseClause_sound {ls rest : List Lexeme} {shapes : List Shape}
    (h : Yields (elseClause ls) shapes rest) :
    Derives .otherwise (peek rest) shapes ∧ allLexemes shapes ++ rest = ls := by
  rw [yields_elseClause] at h
  split at h
  · next hpeek =>
    obtain ⟨_, after, hkeyword, body, _, hbody, rfl, rfl⟩ := h
    have hafter := hkeyword.length_lt
    obtain ⟨keyword, hls, rfl⟩ := yields_bump.mp hkeyword
    obtain ⟨hguarded, hbodyEq⟩ := guarded_sound hbody
    rw [hls] at hpeek
    exact ⟨.elseClause hpeek hguarded, by simp [hls, ← hbodyEq]⟩
  · next hpeek =>
    obtain ⟨rfl, rfl⟩ := h
    exact ⟨.noElse hpeek, rfl⟩
termination_by 3 * ls.length

theorem guarded_sound {ls rest : List Lexeme} {shapes : List Shape}
    (h : Yields (guarded ls) shapes rest) :
    Derives .guarded (peek rest) shapes ∧ allLexemes shapes ++ rest = ls := by
  rw [yields_guarded] at h
  split at h
  · next hpeek =>
    obtain ⟨rfl, rfl⟩ := h
    exact ⟨.unguarded hpeek, rfl⟩
  · obtain ⟨body, _, hbody, rfl, rfl⟩ := h
    obtain ⟨hstatement, heq⟩ := statement_sound hbody
    exact ⟨.guarded hstatement, heq⟩
termination_by 3 * ls.length + 2

theorem block_sound {ls rest : List Lexeme} {shapes : List Shape}
    (h : Yields (block ls) shapes rest) :
    Derives .statement (peek rest) shapes ∧ allLexemes shapes ++ rest = ls := by
  obtain ⟨_, after, hopening, body, mid, hbody, _, _, hclosing, rfl, rfl⟩ := yields_block.mp h
  have hafter := hopening.length_lt
  obtain ⟨opening, hopeningKind, hls, rfl⟩ := yields_expect.mp hopening
  obtain ⟨closing, hclosingKind, hmid, rfl⟩ := yields_expect.mp hclosing
  obtain ⟨hstatements, hbodyEq, -⟩ := statements_sound hbody
  rw [hmid, peek, hclosingKind] at hstatements
  refine ⟨?_, by simp [hls, ← hbodyEq, hmid]⟩
  exact .block hopeningKind hstatements hclosingKind
termination_by 3 * ls.length

theorem statements_sound {inBlock : Bool} {ls rest : List Lexeme} {shapes : List Shape}
    (h : Yields (statements inBlock ls) shapes rest) :
    Derives .statements (peek rest) shapes ∧ allLexemes shapes ++ rest = ls ∧
      (peek rest = .endOfFile ∨ inBlock = true ∧ peek rest = .closeBrace) := by
  rw [yields_statements] at h
  split at h
  · next hstop =>
    obtain ⟨rfl, rfl⟩ := h
    exact ⟨.noStatement, rfl, by simpa using hstop⟩
  · obtain ⟨first, mid, hfirst, more, _, hmore, rfl, rfl⟩ := h
    have hmid := hfirst.length_lt
    obtain ⟨hstatement, hls⟩ := statement_sound hfirst
    obtain ⟨hstatements, hmoreEq, hstop⟩ := statements_sound hmore
    rw [← hmoreEq, peek_append] at hstatement
    exact ⟨.statements hstatement hstatements, by simp [← hls, ← hmoreEq], hstop⟩
termination_by 3 * ls.length + 2

end

/-! ## What obeys the grammar is read -/

/-- Some shapes are read as a phrase. -/
def ReadsPhrase : Phrase → List Lexeme → List Shape → List Lexeme → Prop
  | .operand, ls, shapes, rest => Yields (operand ls) shapes rest
  | .operations, ls, shapes, rest => Yields (operations ls) shapes rest
  | .expression, ls, shapes, rest => Yields (expression ls) shapes rest

/-- A phrase is read back as it is; one that operators could continue, if none follows. -/
theorem readsPhrase {phrase : Phrase} {shapes : List Shape} (h : Expresses phrase shapes)
    (rest : List Lexeme) (hrest : phrase ≠ .operand → peek rest ≠ .operator) :
    ReadsPhrase phrase (allLexemes shapes ++ rest) shapes rest := by
  induction h generalizing rest with
  | @atom lexeme hkind =>
    rw [ReadsPhrase, allLexemes_leaf, List.cons_append, yields_operand, peek_cons]
    rcases hkind with hkind | hkind
    · rw [hkind]
      exact yields_leaf lexeme rest
    · rw [hkind]
      exact yields_leaf lexeme rest
  | @parenthesised opening closing inner hopening _ hclosing ih =>
    have hinner := ih (closing :: rest) fun _ => by simp [hclosing]
    rw [ReadsPhrase, allLexemes_leaf, List.cons_append, yields_operand, peek_cons, hopening,
      allLexemes_append, List.append_assoc]
    exact ⟨opening, closing, inner, _, rfl, hinner, hclosing, rfl⟩
  | noOperation =>
    rw [ReadsPhrase, allLexemes_nil, List.nil_append, yields_operations, if_neg (hrest nofun)]
    exact ⟨rfl, rfl⟩
  | @operation operator operand more hoperator _ _ ihoperand ihmore =>
    have hoperand := ihoperand (allLexemes more ++ rest) fun hne => absurd rfl hne
    have hmore := ihmore rest fun _ => hrest nofun
    rw [ReadsPhrase, allLexemes_leaf, List.cons_append, yields_operations, peek_cons,
      if_pos hoperator, allLexemes_append, List.append_assoc]
    exact ⟨_, _, yields_leaf .., _, _, hoperand, _, _, hmore, rfl, rfl⟩
  | @expression first more _ _ ihfirst ihmore =>
    have hfirst := ihfirst (allLexemes more ++ rest) fun hne => absurd rfl hne
    have hmore := ihmore rest fun _ => hrest nofun
    rw [ReadsPhrase, allLexemes_node, allLexemes_nil, List.append_nil, allLexemes_append,
      List.append_assoc, yields_expression]
    exact ⟨_, _, hfirst, _, _, hmore, rfl, rfl⟩

theorem yields_of_expresses {value : List Shape} (h : Expresses .expression value)
    (rest : List Lexeme) (hrest : peek rest ≠ .operator) :
    Yields (expression (allLexemes value ++ rest)) value rest :=
  readsPhrase h rest fun _ => hrest

/-- Some shapes are read as a clause.  Statements are read up to where a block or a unit
ends. -/
def ReadsClause : Clause → List Lexeme → List Shape → List Lexeme → Prop
  | .statement, ls, shapes, rest => Yields (statement ls) shapes rest
  | .condition, ls, shapes, rest => Yields (condition ls) shapes rest
  | .guarded, ls, shapes, rest => Yields (guarded ls) shapes rest
  | .otherwise, ls, shapes, rest => Yields (elseClause ls) shapes rest
  | .statements, ls, shapes, rest =>
    ∀ inBlock, peek rest = .endOfFile ∨ inBlock = true ∧ peek rest = .closeBrace →
      Yields (statements inBlock ls) shapes rest

/-- A clause is read back as it is before a lexeme of the kind it was made for. -/
theorem readsClause {clause : Clause} {next : Kind} {shapes : List Shape}
    (h : Derives clause next shapes) (rest : List Lexeme) (hrest : peek rest = next) :
    ReadsClause clause (allLexemes shapes ++ rest) shapes rest := by
  induction h generalizing rest with
  | @ifStatement next keyword test body otherwise hkeyword _ _ _ ihtest ihbody ihotherwise =>
    -- From the last part to the first: each is read before what the later ones begin with.
    have hotherwise := ihotherwise rest hrest
    have hbody := ihbody (allLexemes otherwise ++ rest) (by rw [peek_append, hrest])
    have htest := ihtest (allLexemes body ++ (allLexemes otherwise ++ rest)) (by
      rw [← List.append_assoc, ← allLexemes_append, peek_append, hrest])
    rw [ReadsClause, allLexemes_node, allLexemes_leaf, allLexemes_nil, List.append_nil,
      List.cons_append, yields_statement, peek_cons, hkeyword, allLexemes_append,
      allLexemes_append, List.append_assoc, List.append_assoc]
    refine yields_ifStatement.mpr ⟨_, _, yields_leaf .., _, _, htest, _, _, hbody, _, _,
      hotherwise, ?_, rfl⟩
    simp
  | @block next opening closing body hopening _ hclosing ih =>
    have hbody := ih (closing :: rest) hclosing true (.inr ⟨rfl, hclosing⟩)
    rw [ReadsClause, allLexemes_node, allLexemes_leaf, allLexemes_nil, List.append_nil,
      List.cons_append, yields_statement, peek_cons, hopening, allLexemes_append,
      List.append_assoc]
    exact yields_block.mpr ⟨_, _, yields_expect.mpr ⟨_, hopening, rfl, rfl⟩, _, _, hbody, _, _,
      yields_expect.mpr ⟨_, hclosing, rfl, rfl⟩, rfl, rfl⟩
  | @expressionStatement next semicolon value hvalue hsemicolon =>
    have hexpression := yields_of_expresses hvalue (semicolon :: rest) (by
      simp [hsemicolon])
    have hstarts := hvalue.starts nofun (peek (semicolon :: rest))
    rw [← peek_append] at hstarts
    rw [ReadsClause, allLexemes_node, allLexemes_nil, List.append_nil, allLexemes_append,
      List.append_assoc]
    exact (yields_statement_of_starts hstarts).mpr (yields_expressionStatement.mpr
      ⟨_, _, hexpression, _, _, yields_expect.mpr ⟨_, hsemicolon, rfl, rfl⟩, rfl, rfl⟩)
  | noCondition hnext =>
    rw [ReadsClause, allLexemes_nil, List.nil_append, yields_condition, if_neg (hrest ▸ hnext)]
    exact ⟨rfl, rfl⟩
  | @condition next opening closing inner hopening hinner hclosing =>
    have hexpression := yields_of_expresses hinner (closing :: rest) (by
      simp [hclosing])
    rw [ReadsClause, allLexemes_leaf, List.cons_append, yields_condition, peek_cons,
      if_pos hopening, allLexemes_append, List.append_assoc]
    exact ⟨opening, closing, inner, _, rfl, hexpression, hclosing, rfl⟩
  | unguarded hnext =>
    rw [ReadsClause, allLexemes_nil, List.nil_append, yields_guarded, if_pos (hrest ▸ hnext)]
    exact ⟨rfl, rfl⟩
  | @guarded next body hbody ih =>
    have hstatement := ih rest hrest
    have hstarts := hbody.starts (peek rest)
    rw [← peek_append] at hstarts
    rw [ReadsClause, yields_guarded, if_neg hstarts.not_ends]
    exact ⟨_, _, hstatement, rfl, rfl⟩
  | noElse hnext =>
    rw [ReadsClause, allLexemes_nil, List.nil_append, yields_elseClause, if_neg (hrest ▸ hnext)]
    exact ⟨rfl, rfl⟩
  | @elseClause next keyword body hkeyword _ ih =>
    have hbody := ih rest hrest
    rw [ReadsClause, allLexemes_node, allLexemes_leaf, allLexemes_nil, List.append_nil,
      List.cons_append, yields_elseClause, peek_cons, if_pos hkeyword]
    exact ⟨_, _, yields_leaf .., _, _, hbody, rfl, rfl⟩
  | noStatement =>
    intro inBlock hstop
    rw [allLexemes_nil, List.nil_append, yields_statements, if_pos (by simpa using hstop)]
    exact ⟨rfl, rfl⟩
  | @statements next first more hfirst _ ihfirst ihmore =>
    intro inBlock hstop
    have hmore := ihmore rest hrest inBlock hstop
    have hstatement := ihfirst (allLexemes more ++ rest) (by rw [peek_append, hrest])
    have hstarts := hfirst.starts (peek (allLexemes more ++ rest))
    rw [← peek_append] at hstarts
    rw [allLexemes_append, List.append_assoc, yields_statements, if_neg (by
      rcases hstarts with h | h | h | h | h <;> simp [h])]
    exact ⟨_, _, hstatement, _, _, hmore, rfl, rfl⟩

/-! ## Units -/

theorem unit_eq_ok_iff {ls : List Lexeme} {shape : Shape} :
    unit ls = .ok shape ↔ ∃ body last rest, Yields (statements false ls) body (last :: rest) ∧
      shape = .node .compilationUnit (body ++ [.leaf last]) := by
  unfold unit
  rw [bind_eq_ok_iff]
  constructor
  · rintro ⟨body, hbody, hlast⟩
    obtain ⟨final, hfinal, heq⟩ := bind_eq_ok_iff.mp hlast
    obtain ⟨last, hrest, hshapes⟩ := yields_bump.mp ⟨final, hfinal, rfl, rfl⟩
    cases heq
    exact ⟨body.shapes, last, final.rest, ⟨body, hbody, rfl, hrest⟩, by rw [hshapes]⟩
  · rintro ⟨_, last, rest, ⟨body, hbody, rfl, hrest⟩, rfl⟩
    obtain ⟨final, hfinal, hshapes, -⟩ := yields_bump.mpr ⟨last, hrest, rfl⟩
    exact ⟨body, hbody, bind_eq_ok_iff.mpr ⟨final, hfinal, by rw [hshapes]; rfl⟩⟩

/-- What is read as a unit is one, and its lexemes are the first of those given. -/
theorem unit_sound {ls : List Lexeme} {shape : Shape} (h : unit ls = .ok shape) :
    IsUnit shape ∧ ∃ rest, shape.lexemes ++ rest = ls := by
  obtain ⟨body, last, rest, hbody, rfl⟩ := unit_eq_ok_iff.mp h
  obtain ⟨hstatements, heq, hstop⟩ := statements_sound hbody
  have hlast : last.kind = .endOfFile := by simpa using hstop
  rw [peek_cons, hlast] at hstatements
  exact ⟨⟨body, last, rfl, hstatements, hlast⟩, rest, by simpa [lexemes] using heq⟩

/-- A unit is read back as it is. -/
theorem unit_complete {shape : Shape} (h : IsUnit shape) : unit shape.lexemes = .ok shape := by
  obtain ⟨body, last, rfl, hbody, hlast⟩ := h
  have hread := readsClause hbody [last] hlast false (.inl hlast)
  rw [lexemes, allLexemes_append]
  exact unit_eq_ok_iff.mpr ⟨body, last, [], hread, rfl⟩

end Parser
end SpacingLint
