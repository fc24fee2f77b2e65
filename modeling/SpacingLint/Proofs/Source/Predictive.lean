import SpacingLint.Proofs.Source.Reading

/-! # What a parser still has to read

At any time the parser is inside some constructs, and of each there is something left to read.
These remainders form a stack of goals, and the kind of the next lexeme tells what becomes of it:
the goal on top takes the lexeme and leaves other goals in its place, or it is done without, or
nothing that could be read there begins with that lexeme (`Goal.read`).  Nothing else is looked
at, so the lexemes that such a stack takes can be read off one by one (`unread`), although the
parser calls itself at every bracket.

That the parser goes the way of its goals is stated for each parsing function as `Follows`: with
the goals before it on the stack, the lexemes that are left unread are those that are unread with
the goals after it behind what the function has read; and if it fails, they are the lexemes at
whose first it fails.  What lies below on the stack does not matter, so the functions follow one
another as their goals do (`Follows.bind`, `Follows.frame`).
-/
namespace SpacingLint
namespace Parser

/-- A part of a construct that is still to be read. -/
inductive Goal where
  /-- A closing parenthesis. -/
  | closeParen
  /-- A semicolon. -/
  | semicolon
  /-- A name, a number, or an expression in parentheses. -/
  | operand
  /-- Operators, each with the operand after it. -/
  | operations
  /-- An expression. -/
  | expression
  /-- The condition of an `if` statement, which may be missing. -/
  | condition
  /-- The statement that an `if` or `else` guards, which may be missing. -/
  | guarded
  /-- An `else` clause, which may be missing. -/
  | otherwise
  /-- A statement. -/
  | statement
  /-- Statements, and the brace that closes their block. -/
  | blockRest
  /-- Statements, and the end of the file. -/
  | unitRest
deriving DecidableEq

/-- What becomes of a goal at a lexeme. -/
inductive Move where
  /-- The lexeme cannot stand here. -/
  | refuse
  /-- The goal is done, and the lexeme is left. -/
  | skip
  /-- The lexeme is read, and other goals take the place of this one. -/
  | take (goals : List Goal)

namespace Goal

/-- What is left of an operand behind a first lexeme, if it can begin with it. -/
def openOperand : Kind → Option (List Goal)
  | .identifier | .numberLiteral => some []
  | .openParen => some [expression, closeParen]
  | _ => none

/-- What is left of a statement behind a first lexeme, if it can begin with it. -/
def openStatement : Kind → Option (List Goal)
  | .ifKeyword => some [condition, guarded, otherwise]
  | .openBrace => some [blockRest]
  | kind => (openOperand kind).map (· ++ [operations, semicolon])

/-- Reads the first lexeme of a construct that is followed by other goals. -/
def enter (opened : Option (List Goal)) (more : List Goal) : Move :=
  match opened with
  | some goals => .take (goals ++ more)
  | none => .refuse

/-- What becomes of a goal at a lexeme of a kind. -/
def read : Goal → Kind → Move
  | closeParen, kind => if kind = .closeParen then .take [] else .refuse
  | semicolon, kind => if kind = .semicolon then .take [] else .refuse
  | operand, kind => enter (openOperand kind) []
  | operations, kind => if kind = .operator then .take [operand, operations] else .skip
  | expression, kind => enter (openOperand kind) [operations]
  | condition, kind => if kind = .openParen then .take [expression, closeParen] else .skip
  | guarded, kind => if endsStatement kind then .skip else enter (openStatement kind) []
  | otherwise, kind => if kind = .elseKeyword then .take [guarded] else .skip
  | statement, kind => enter (openStatement kind) []
  | blockRest, kind => if kind = .closeBrace then .take [] else enter (openStatement kind) [blockRest]
  | unitRest, kind => if kind = .endOfFile then .take [] else enter (openStatement kind) [unitRest]

end Goal

/-- The goals behind a lexeme of a kind, if it can be read. -/
def step : List Goal → Kind → Option (List Goal)
  | [], _ => none
  | goal :: stack, kind =>
    match goal.read kind with
    | .refuse => none
    | .skip => step stack kind
    | .take goals => some (goals ++ stack)

/-- The lexemes from the first on that cannot be read. -/
def unread (goals : List Goal) : List Lexeme → List Lexeme
  | [] => []
  | lexeme :: rest =>
    match step goals lexeme.kind with
    | none => lexeme :: rest
    | some goals => unread goals rest

section Unread

variable {goal : Goal} {goals stack : List Goal} {ls : List Lexeme}

@[simp] theorem unread_nil (goals : List Goal) : unread goals [] = [] := by rw [unread]

/-- Without a goal nothing is read. -/
@[simp] theorem unread_done (ls : List Lexeme) : unread [] ls = ls := by
  cases ls <;> rfl

theorem unread_of_take {lexeme : Lexeme} (h : goal.read lexeme.kind = .take goals) :
    unread (goal :: stack) (lexeme :: ls) = unread (goals ++ stack) ls := by
  rw [unread, step, h]

theorem unread_of_skip (h : goal.read (peek ls) = .skip) :
    unread (goal :: stack) ls = unread stack ls := by
  cases ls with
  | nil => simp
  | cons lexeme rest =>
    rw [peek_cons] at h
    rw [unread, step, h, unread]

theorem unread_of_refuse (h : goal.read (peek ls) = .refuse) :
    unread (goal :: stack) ls = ls := by
  cases ls with
  | nil => simp
  | cons lexeme rest =>
    rw [peek_cons] at h
    rw [unread, step, h]

/-- A goal with others below it reads what a single goal reads if each reads the same first
lexemes and leaves the same to do. -/
theorem unread_congr (goals : List Goal) {other : Goal} {opened : Option (List Goal)}
    {more below : List Goal} (h : goal.read (peek ls) = Goal.enter opened more)
    (hother : other.read (peek ls) = Goal.enter opened below) (hbelow : more = below ++ goals) :
    unread (goal :: stack) ls = unread (other :: (goals ++ stack)) ls := by
  cases opened with
  | none => rw [unread_of_refuse h, unread_of_refuse hother]
  | some opening =>
    cases ls with
    | nil => simp
    | cons lexeme rest =>
      rw [unread_of_take h, unread_of_take hother, hbelow]
      simp

end Unread

/-! ## Following the goals -/

/-- The end of the file is among some lexemes. -/
def HasEnd (ls : List Lexeme) : Prop := ∃ lexeme ∈ ls, lexeme.kind = .endOfFile

theorem HasEnd.ne_nil {ls : List Lexeme} (h : HasEnd ls) : ls ≠ [] := by
  rintro rfl
  obtain ⟨_, hmem, -⟩ := h
  cases hmem

/-- The end of the file does not get lost behind another lexeme. -/
theorem HasEnd.of_cons {lexeme : Lexeme} {ls : List Lexeme} (h : HasEnd (lexeme :: ls))
    (hkind : lexeme.kind ≠ .endOfFile) : HasEnd ls := by
  obtain ⟨last, hmem, hlast⟩ := h
  rcases List.mem_cons.mp hmem with rfl | hmem
  · exact absurd hlast hkind
  · exact ⟨last, hmem, hlast⟩

/-- **What is read is what the goals take**: `before` and `after` are the goals on top of the
stack when some lexemes are read and when they have been. -/
inductive Follows {bound : Nat} (before after : List Goal) (ls : List Lexeme) :
    Except SourceError (Parsed bound) → Prop
  /-- The goals take what was read. -/
  | reads {parsed : Parsed bound}
      (hunread : ∀ stack, unread (before ++ stack) ls = unread (after ++ stack) parsed.rest)
      (hend : HasEnd ls → HasEnd parsed.rest) : Follows before after ls (.ok parsed)
  /-- The goals take nothing behind what was read. -/
  | fails {expected : Expectation} {rest : List Lexeme}
      (hunread : ∀ stack, unread (before ++ stack) ls = rest) (hend : HasEnd ls → HasEnd rest) :
      Follows before after ls (.error (unexpected expected rest))

namespace Follows

variable {bound further : Nat} {before mid after : List Goal} {ls : List Lexeme}

theorem done {parsed : Parsed bound} (h : parsed.rest = ls) : Follows before before ls (.ok parsed) :=
  .reads (fun _ => by rw [h]) fun hend => h ▸ hend

theorem bind {first : Except SourceError (Parsed bound)} (h : Follows before mid ls first)
    {more : Parsed bound → Except SourceError (Parsed further)}
    (hmore : ∀ parsed, first = .ok parsed → Follows mid after parsed.rest (more parsed)) :
    Follows before after ls (first >>= more) := by
  cases h with
  | fails hunread hend => exact .fails hunread hend
  | @reads parsed hunread hend =>
    have hlater := hmore parsed rfl
    show Follows before after ls (more parsed)
    generalize more parsed = result at hlater
    cases hlater with
    | fails hfails hlast =>
      exact .fails (fun stack => (hunread stack).trans (hfails stack)) (hlast ∘ hend)
    | reads hreads hlast =>
      exact .reads (fun stack => (hunread stack).trans (hreads stack)) (hlast ∘ hend)

/-- Goals below stay as they are. -/
theorem frame {result : Except SourceError (Parsed bound)} (h : Follows before after ls result)
    (below : List Goal) : Follows (before ++ below) (after ++ below) ls result := by
  cases h with
  | fails hunread hend =>
    exact .fails (fun stack => by rw [List.append_assoc, hunread]) hend
  | reads hunread hend =>
    exact .reads (fun stack => by rw [List.append_assoc, List.append_assoc, hunread]) hend

/-- Goals may be put in other words. -/
theorem congr (mid : List Goal) {result : Except SourceError (Parsed bound)}
    (h : Follows mid after ls result)
    (hunread : ∀ stack, unread (before ++ stack) ls = unread (mid ++ stack) ls) :
    Follows before after ls result := by
  cases h with
  | fails hfails hend => exact .fails (fun stack => (hunread stack).trans (hfails stack)) hend
  | reads hreads hend => exact .reads (fun stack => (hunread stack).trans (hreads stack)) hend

/-- A goal that is done without is off the stack. -/
theorem skip {goal : Goal} (h : goal.read (peek ls) = .skip) {parsed : Parsed bound}
    (hrest : parsed.rest = ls) : Follows [goal] [] ls (.ok parsed) :=
  congr [] (done hrest) fun _ => unread_of_skip h

end Follows

variable {ls : List Lexeme}

theorem bump_follows (goals : List Goal) {goal : Goal}
    (hread : goal.read (peek ls) = .take goals) (hend : peek ls ≠ .endOfFile) :
    Follows [goal] goals ls (bump ls) := by
  cases ls with
  | nil => exact absurd rfl hend
  | cons lexeme rest => exact .reads (fun _ => unread_of_take hread) fun h => h.of_cons hend

theorem expect_follows {goal : Goal} {kind : Kind} {expected : Expectation}
    (hread : ∀ next, goal.read next = if next = kind then .take [] else .refuse)
    (hkind : kind ≠ .endOfFile) : Follows [goal] [] ls (expect kind expected ls) := by
  unfold expect
  split
  · next hpeek =>
    refine bump_follows [] ?_ (hpeek ▸ hkind)
    rw [hread, if_pos hpeek]
  · next hpeek =>
    refine .fails (fun _ => unread_of_refuse ?_) id
    rw [hread, if_neg hpeek]

theorem closeParen_follows : Follows [.closeParen] [] ls (expect .closeParen .closeParen ls) :=
  expect_follows (fun _ => rfl) nofun

theorem semicolon_follows : Follows [.semicolon] [] ls (expect .semicolon .semicolon ls) :=
  expect_follows (fun _ => rfl) nofun

/-! ## Expressions -/

mutual

theorem expression_follows {ls : List Lexeme} : Follows [.expression] [] ls (expression ls) := by
  rw [expression]
  refine Follows.congr [.operand, .operations] ?_ fun stack =>
    unread_congr [.operations] rfl rfl rfl
  refine (operand_follows.frame [.operations]).bind fun first _ => ?_
  have hfirst := first.rest_lt
  exact operations_follows.bind fun more _ => .done rfl
termination_by 2 * ls.length + 1

theorem operations_follows {ls : List Lexeme} : Follows [.operations] [] ls (operations ls) := by
  rw [operations]
  split
  · next hpeek =>
    have hread : Goal.operations.read (peek ls) = .take [.operand, .operations] := by
      rw [Goal.read, if_pos hpeek]
    refine (bump_follows _ hread (by rw [hpeek]; nofun)).bind fun operator _ => ?_
    have hoperator := operator.rest_lt
    refine (operand_follows.frame [.operations]).bind fun next _ => ?_
    have hnext := next.rest_lt
    exact operations_follows.bind fun more _ => .done rfl
  · next hpeek => exact .skip (by rw [Goal.read, if_neg hpeek]) rfl
termination_by 2 * ls.length

theorem operand_follows {ls : List Lexeme} : Follows [.operand] [] ls (operand ls) := by
  rw [operand]
  generalize hpeek : peek ls = kind
  cases kind
  case identifier => exact bump_follows [] (by rw [hpeek]; rfl) (by rw [hpeek]; nofun)
  case numberLiteral => exact bump_follows [] (by rw [hpeek]; rfl) (by rw [hpeek]; nofun)
  case openParen =>
    refine (bump_follows [.expression, .closeParen] (by rw [hpeek]; rfl)
      (by rw [hpeek]; nofun)).bind fun opening _ => ?_
    have hopening := opening.rest_lt
    refine (expression_follows.frame [.closeParen]).bind fun inner _ => ?_
    exact closeParen_follows.bind fun closing _ => .done rfl
  all_goals exact .fails (fun _ => unread_of_refuse (by rw [hpeek]; rfl)) id
termination_by 2 * ls.length

end

/-! ## Statements -/

theorem condition_follows : Follows [.condition] [] ls (condition ls) := by
  unfold condition
  split
  · next hpeek =>
    have hread : Goal.condition.read (peek ls) = .take [.expression, .closeParen] := by
      rw [Goal.read, if_pos hpeek]
    refine (bump_follows _ hread (by rw [hpeek]; nofun)).bind fun opening _ => ?_
    refine (expression_follows.frame [.closeParen]).bind fun inner _ => ?_
    exact closeParen_follows.bind fun closing _ => .done rfl
  · next hpeek => exact .skip (by rw [Goal.read, if_neg hpeek]) rfl

theorem expressionStatement_follows :
    Follows [.expression, .semicolon] [] ls (expressionStatement ls) :=
  (expression_follows.frame [.semicolon]).bind fun _ _ =>
    semicolon_follows.bind fun _ _ => .done rfl

/-- A statement that is neither an `if` statement nor a block begins as its expression does. -/
theorem read_statement {kind : Kind} (hif : kind ≠ .ifKeyword) (hblock : kind ≠ .openBrace) :
    Goal.statement.read kind =
      Goal.enter (Goal.openOperand kind) [.operations, .semicolon] := by
  rw [Goal.read, Goal.openStatement]
  · cases Goal.openOperand kind <;> simp [Goal.enter]
  · exact hif
  · exact hblock

/-- What is left of a block or a unit. -/
def restOf (inBlock : Bool) : Goal := if inBlock then .blockRest else .unitRest

/-- What is left of a block or a unit begins with a statement where it does not end. -/
theorem read_restOf {inBlock : Bool} {kind : Kind}
    (h : ¬ (kind = .endOfFile || (inBlock && kind = .closeBrace)) = true) :
    (restOf inBlock).read kind = Goal.enter (Goal.openStatement kind) [restOf inBlock] := by
  cases inBlock with
  | true => exact if_neg fun hkind => h (by simp [hkind])
  | false => exact if_neg fun hkind => h (by simp [hkind])

/-- Where its statements end, a block is closed or the file ends too early. -/
theorem closeBrace_follows (hstop : peek ls = .endOfFile ∨ peek ls = .closeBrace) :
    Follows [.blockRest] [] ls (expect .closeBrace .closeBrace ls) := by
  unfold expect
  rcases hstop with hpeek | hpeek
  · rw [if_neg (by rw [hpeek]; nofun)]
    exact .fails (fun _ => unread_of_refuse (by rw [hpeek]; rfl)) id
  · rw [if_pos hpeek]
    exact bump_follows [] (by rw [hpeek]; rfl) (by rw [hpeek]; nofun)

mutual

theorem statement_follows {ls : List Lexeme} : Follows [.statement] [] ls (statement ls) := by
  rw [statement]
  split
  · next hpeek => exact ifStatement_follows hpeek
  · next hpeek => exact block_follows hpeek
  · next hif hblock =>
    exact expressionStatement_follows.congr _ fun stack =>
      unread_congr [.semicolon] (read_statement hif hblock) rfl rfl
termination_by 3 * ls.length + 1

theorem ifStatement_follows {ls : List Lexeme} (hpeek : peek ls = .ifKeyword) :
    Follows [.statement] [] ls (ifStatement ls) := by
  rw [ifStatement]
  have hread : Goal.statement.read (peek ls) = .take [.condition, .guarded, .otherwise] := by
    rw [hpeek]
    rfl
  refine (bump_follows _ hread (by rw [hpeek]; nofun)).bind fun keyword _ => ?_
  have hkeyword := keyword.rest_lt
  refine (condition_follows.frame [.guarded, .otherwise]).bind fun test _ => ?_
  have htest := test.rest_lt
  refine (guarded_follows.frame [.otherwise]).bind fun body _ => ?_
  have hbody := body.rest_lt
  exact elseClause_follows.bind fun otherwise _ => .done rfl
termination_by 3 * ls.length

theorem elseClause_follows {ls : List Lexeme} : Follows [.otherwise] [] ls (elseClause ls) := by
  rw [elseClause]
  split
  · next hpeek =>
    have hread : Goal.otherwise.read (peek ls) = .take [.guarded] := by
      rw [Goal.read, if_pos hpeek]
    refine (bump_follows _ hread (by rw [hpeek]; nofun)).bind fun keyword _ => ?_
    have hkeyword := keyword.rest_lt
    exact guarded_follows.bind fun body _ => .done rfl
  · next hpeek => exact .skip (by rw [Goal.read, if_neg hpeek]) rfl
termination_by 3 * ls.length

theorem guarded_follows {ls : List Lexeme} : Follows [.guarded] [] ls (guarded ls) := by
  rw [guarded]
  split
  · next hends => exact .skip (by rw [Goal.read, if_pos hends]) rfl
  · next hends =>
    have hread : Goal.guarded.read (peek ls) =
        Goal.enter (Goal.openStatement (peek ls)) [] := by
      rw [Goal.read, if_neg hends]
    refine Follows.congr [.statement] ?_ fun stack => unread_congr [] hread rfl rfl
    exact statement_follows.bind fun body _ => .done rfl
termination_by 3 * ls.length + 2

theorem block_follows {ls : List Lexeme} (hpeek : peek ls = .openBrace) :
    Follows [.statement] [] ls (block ls) := by
  rw [block, expect, if_pos hpeek]
  have hread : Goal.statement.read (peek ls) = .take [.blockRest] := by
    rw [hpeek]
    rfl
  refine (bump_follows _ hread (by rw [hpeek]; nofun)).bind fun opening _ => ?_
  have hopening := opening.rest_lt
  refine (statements_follows true).bind fun body hbody => ?_
  obtain ⟨-, -, hstop⟩ := statements_sound ⟨body, hbody, rfl, rfl⟩
  exact (closeBrace_follows (by simpa using hstop)).bind fun closing _ => .done rfl
termination_by 3 * ls.length

theorem statements_follows (inBlock : Bool) {ls : List Lexeme} :
    Follows [restOf inBlock] [restOf inBlock] ls (statements inBlock ls) := by
  rw [statements]
  split
  · exact .done rfl
  · next hmore =>
    refine Follows.congr [.statement, restOf inBlock] ?_ fun stack =>
      unread_congr [restOf inBlock] (read_restOf hmore) rfl rfl
    refine (statement_follows.frame [restOf inBlock]).bind fun first _ => ?_
    have hfirst := first.rest_lt
    exact (statements_follows inBlock).bind fun more _ => .done rfl
termination_by 3 * ls.length + 2

end

/-! ## Units -/

theorem unit_follows : Follows [.unitRest] [.unitRest] ls (statements false ls) :=
  statements_follows false

/-- Behind a unit nothing is to be read. -/
theorem unread_of_unit {shape : Shape} (h : unit ls = .ok shape) :
    shape.lexemes ++ unread [.unitRest] ls = ls := by
  obtain ⟨_, last, rest, ⟨body, hbody, rfl, hrest⟩, rfl⟩ := unit_eq_ok_iff.mp h
  obtain ⟨-, hlexemes, hstop⟩ := statements_sound ⟨body, hbody, rfl, hrest⟩
  have hlast : last.kind = .endOfFile := by simpa using hstop
  have hfollows := @unit_follows ls
  rw [hbody] at hfollows
  cases hfollows with
  | reads hunread hend =>
    have hread : Goal.unitRest.read last.kind = .take [] := if_pos hlast
    have hunread : unread [.unitRest] ls = unread [.unitRest] body.rest := hunread []
    rw [hunread, hrest, unread_of_take hread]
    simpa [Shape.lexemes] using hlexemes

/-- **A unit is refused at the first lexeme that cannot be read.** -/
theorem unread_of_unit_error {error : SourceError} (h : unit ls = .error error) :
    ∃ expected, error = unexpected expected (unread [.unitRest] ls) ∧
      (HasEnd ls → unread [.unitRest] ls ≠ []) := by
  have hfollows := @unit_follows ls
  unfold unit at h
  generalize statements false ls = body at h hfollows
  cases hfollows with
  | @fails expected rest hunread hend =>
    have hunread : unread [.unitRest] ls = rest := hunread []
    rw [hunread]
    cases h
    exact ⟨expected, rfl, fun hls => (hend hls).ne_nil⟩
  | @reads body hunread hend =>
    -- Only the end of the file is left to read, so it must be missing.
    have hunread : unread [.unitRest] ls = unread [.unitRest] body.rest := hunread []
    rw [hunread]
    obtain ⟨shapes, rest, hlt⟩ := body
    cases rest with
    | nil =>
      cases h
      exact ⟨.token, by rw [unread_nil], fun hls => absurd rfl (hend hls).ne_nil⟩
    | cons last rest => cases h

end Parser
end SpacingLint
