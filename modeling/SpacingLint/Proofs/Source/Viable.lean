import SpacingLint.Proofs.Source.Predictive

/-! # Syntax errors stand at the first token that is in the way

A token is in the way if, with the tokens before it, it begins no token sequence that the parser
accepts, whatever may follow.  A parser could well go on past such a token and complain later, or
complain of one that something acceptable begins with.  This one does neither
(`Parser.unit_error`).

Both follow from the goals of the parser.  At the token that is complained of no goal can read
it, and what is accepted is read by the goals to its end, so nothing accepted begins like that.
The tokens before it were read, and the goals that are then left can all be completed in turn:
parentheses and blocks are closed, statements that are missing are put in, and what may be missing
is left out (`Parser.steps_completion`).  Only the last goal asks for the end of the file, and it
stays the last (`Parser.Pending`), so the end of the file comes at the end.
-/
namespace SpacingLint
namespace Parser

/-! ## Reading several lexemes -/

/-- The goals behind lexemes of some kinds, if all of them can be read. -/
def steps : List Goal → List Kind → Option (List Goal)
  | goals, [] => some goals
  | goals, kind :: rest =>
    match step goals kind with
    | none => none
    | some goals => steps goals rest

variable {goals stack : List Goal} {goal : Goal} {kind : Kind} {kinds more : List Kind}

theorem steps_append (h : steps goals kinds = some stack) (more : List Kind) :
    steps goals (kinds ++ more) = steps stack more := by
  induction kinds generalizing goals with
  | nil => cases h; rfl
  | cons kind rest ih =>
    rw [steps] at h
    rw [List.cons_append, steps]
    cases hstep : step goals kind with
    | none => rw [hstep] at h; cases h
    | some next => rw [hstep] at h; exact ih h

/-- **Either all lexemes are read, or all up to one that cannot be.** -/
theorem unread_cases (goals : List Goal) (ls : List Lexeme) :
    (unread goals ls = [] ∧ (steps goals (ls.map Lexeme.kind)).isSome) ∨
      ∃ before bad after stack, ls = before ++ bad :: after ∧ unread goals ls = bad :: after ∧
        steps goals (before.map Lexeme.kind) = some stack ∧ step stack bad.kind = none := by
  induction ls generalizing goals with
  | nil => exact .inl ⟨unread_nil _, rfl⟩
  | cons lexeme rest ih =>
    cases hstep : step goals lexeme.kind with
    | none =>
      refine .inr ⟨[], lexeme, rest, goals, rfl, ?_, rfl, hstep⟩
      rw [unread, hstep]
    | some next =>
      have hunread : unread goals (lexeme :: rest) = unread next rest := by rw [unread, hstep]
      have hsteps : ∀ kinds, steps goals (lexeme.kind :: kinds) = steps next kinds := by
        intro kinds
        rw [steps, hstep]
      rcases ih next with ⟨hnil, hall⟩ | ⟨before, bad, after, stack, rfl, hbad, hbefore, hnone⟩
      · exact .inl ⟨hunread.trans hnil, by rw [List.map_cons, hsteps]; exact hall⟩
      · exact .inr ⟨lexeme :: before, bad, after, stack, rfl, hunread.trans hbad,
          by rw [List.map_cons, hsteps]; exact hbefore, hnone⟩

/-- All lexemes are read if the goals take their kinds. -/
theorem unread_eq_nil_iff {ls : List Lexeme} :
    unread goals ls = [] ↔ (steps goals (ls.map Lexeme.kind)).isSome := by
  rcases unread_cases goals ls with ⟨hnil, hsome⟩ | ⟨before, bad, after, stack, rfl, hbad,
      hbefore, hnone⟩
  · exact iff_of_true hnil hsome
  · refine iff_of_false (by rw [hbad]; exact List.cons_ne_nil _ _) ?_
    rw [List.map_append, List.map_cons, steps_append hbefore, steps, hnone]
    nofun

/-! ## Accepted sequences -/

/-- **The parser accepts a sequence of token kinds** that has the end of the file as its last
and nowhere else. -/
def Accepts (kinds : List Kind) : Prop :=
  ∃ init, kinds = init ++ [.endOfFile] ∧ .endOfFile ∉ init ∧
    ∃ lexemes shape, lexemes.map Lexeme.kind = kinds ∧ unit lexemes = .ok shape

/-- What is accepted is read by the goals to its end. -/
theorem Accepts.isSome_steps (h : Accepts kinds) : (steps [.unitRest] kinds).isSome := by
  obtain ⟨init, rfl, hinit, lexemes, shape, hkinds, hunit⟩ := h
  rw [← hkinds, ← unread_eq_nil_iff]
  obtain ⟨⟨body, last, rfl, -, hlast⟩, -⟩ := unit_sound hunit
  have hlexemes := congrArg (List.map Lexeme.kind) (unread_of_unit hunit)
  -- The unit ends with the end of the file, which nothing follows.
  rcases List.eq_nil_or_concat (unread [.unitRest] lexemes) with hnil | ⟨rest, final, hrest⟩
  · exact hnil
  · rw [hrest, hkinds, Shape.lexemes, Shape.allLexemes_append, List.concat_eq_append,
      ← List.append_assoc, List.map_append] at hlexemes
    obtain ⟨rfl, -⟩ := List.append_inj' hlexemes rfl
    exact absurd (by simp [hlast]) hinit

/-- What the goals read to its end is accepted. -/
theorem accepts_of_steps {init : List Kind} (hinit : .endOfFile ∉ init)
    (h : (steps [.unitRest] (init ++ [.endOfFile])).isSome) : Accepts (init ++ [.endOfFile]) := by
  let lexemes : List Lexeme := (init ++ [Kind.endOfFile]).map fun kind => ⟨kind, "", 0, [], []⟩
  have hkinds : lexemes.map Lexeme.kind = init ++ [.endOfFile] := by
    simp [lexemes, Function.comp_def]
  have hnil : unread [.unitRest] lexemes = [] := unread_eq_nil_iff.mpr (by rwa [hkinds])
  cases hunit : unit lexemes with
  | ok shape => exact ⟨init, rfl, hinit, lexemes, shape, hkinds, hunit⟩
  | error error =>
    obtain ⟨expected, -, hne⟩ := unread_of_unit_error hunit
    refine absurd hnil (hne ⟨⟨.endOfFile, "", 0, [], []⟩, ?_, rfl⟩)
    simp [lexemes]

/-! ## Completing what is left -/

namespace Goal

/-- Kinds of lexemes that complete a goal.  What may be missing is left out, except that a
statement is put in where one is guarded. -/
def completion : Goal → List Kind
  | closeParen => [.closeParen]
  | semicolon => [.semicolon]
  | operand | expression => [.identifier]
  | statement | guarded => [.identifier, .semicolon]
  | blockRest => [.closeBrace]
  | unitRest => [.endOfFile]
  | operations | condition | otherwise => []

/-- With a lexeme of this kind nothing goes on that may be left out. -/
def Ends (kind : Kind) : Prop :=
  operations.read kind = .skip ∧ condition.read kind = .skip ∧ otherwise.read kind = .skip

theorem ends_of_mem_completion {goal : Goal} {kind : Kind} (h : kind ∈ goal.completion) :
    Ends kind := by
  cases goal <;> simp only [completion, List.mem_cons, List.not_mem_nil, or_false] at h
  case statement | guarded => rcases h with rfl | rfl <;> exact ⟨rfl, rfl, rfl⟩
  all_goals subst h; exact ⟨rfl, rfl, rfl⟩

theorem endOfFile_not_mem_completion {goal : Goal} (h : goal ≠ unitRest) :
    .endOfFile ∉ goal.completion := by
  cases goal
  case unitRest => exact absurd rfl h
  all_goals decide

end Goal

/-- A goal that may be missing is left out before what does not go on with it. -/
theorem steps_of_skip (h : goal.read kind = .skip) :
    steps (goal :: stack) (kind :: kinds) = steps stack (kind :: kinds) := by
  rw [steps, step, h]
  rfl

/-- The completion of goals that end with a unit begins with a lexeme that ends what is before. -/
theorem exists_completion (init : List Goal) : ∃ kind kinds,
    (init ++ [Goal.unitRest]).flatMap Goal.completion = kind :: kinds ∧ Goal.Ends kind := by
  have hne : (init ++ [Goal.unitRest]).flatMap Goal.completion ≠ [] := by
    rw [List.flatMap_append]
    exact List.append_ne_nil_of_right_ne_nil _ nofun
  obtain ⟨kind, kinds, hkinds⟩ := List.exists_cons_of_ne_nil hne
  obtain ⟨goal, -, hmem⟩ := List.mem_flatMap.mp (hkinds ▸ List.mem_cons_self ..)
  exact ⟨kind, kinds, hkinds, Goal.ends_of_mem_completion hmem⟩

/-- **Goals are read to their end by what completes them**, one after the other. -/
theorem steps_completion {init : List Goal} (h : Goal.unitRest ∉ init) :
    steps (init ++ [.unitRest]) ((init ++ [Goal.unitRest]).flatMap Goal.completion) =
      some [] := by
  induction init with
  | nil => rfl
  | cons goal init ih =>
    have hrest := ih fun hmem => h (List.mem_cons_of_mem _ hmem)
    obtain ⟨kind, kinds, hkinds, hoperations, hcondition, hotherwise⟩ := exists_completion init
    rw [List.cons_append, List.flatMap_cons]
    rw [hkinds] at hrest ⊢
    cases goal
    case unitRest => exact absurd (List.mem_cons_self ..) h
    case operations => exact (steps_of_skip hoperations).trans hrest
    case condition => exact (steps_of_skip hcondition).trans hrest
    case otherwise => exact (steps_of_skip hotherwise).trans hrest
    -- An expression that is a name could still go on with an operator.
    case expression => exact (steps_of_skip hoperations).trans hrest
    all_goals exact hrest

/-! ## The goals of a unit -/

namespace Goal

theorem unitRest_not_mem_openOperand {goals : List Goal} (h : openOperand kind = some goals) :
    unitRest ∉ goals := by
  cases kind <;> cases h <;> decide

theorem unitRest_not_mem_openStatement {goals : List Goal} (h : openStatement kind = some goals) :
    unitRest ∉ goals := by
  cases kind <;> cases h <;> decide

theorem exists_of_enter {opened : Option (List Goal)} {more goals : List Goal}
    (h : enter opened more = .take goals) :
    ∃ opening, opened = some opening ∧ goals = opening ++ more := by
  cases opened with
  | none => cases h
  | some opening => cases h; exact ⟨opening, rfl, rfl⟩

/-- No construct but a unit has a unit in it. -/
theorem unitRest_not_mem_read {goals : List Goal} (h : goal.read kind = .take goals)
    (hgoal : goal ≠ unitRest) : unitRest ∉ goals := by
  cases goal
  case operand | expression =>
    obtain ⟨opening, hopening, rfl⟩ := exists_of_enter h
    simp [unitRest_not_mem_openOperand hopening]
  case statement =>
    obtain ⟨opening, hopening, rfl⟩ := exists_of_enter h
    simp [unitRest_not_mem_openStatement hopening]
  case guarded =>
    rw [read] at h
    split at h
    · cases h
    · obtain ⟨opening, hopening, rfl⟩ := exists_of_enter h
      simp [unitRest_not_mem_openStatement hopening]
  case blockRest =>
    rw [read] at h
    split at h
    · cases h
      decide
    · obtain ⟨opening, hopening, rfl⟩ := exists_of_enter h
      simp [unitRest_not_mem_openStatement hopening]
  case unitRest => exact absurd rfl hgoal
  all_goals
    rw [read] at h
    split at h
    · cases h
      decide
    · cases h

end Goal

/-- A unit is left to be read below some other goals. -/
def Pending (stack : List Goal) : Prop :=
  ∃ init, stack = init ++ [Goal.unitRest] ∧ Goal.unitRest ∉ init

/-- A unit that is left to be read is left until the end of the file is read. -/
theorem Pending.step (h : Pending goals) (hkind : kind ≠ .endOfFile)
    (hstep : step goals kind = some stack) : Pending stack := by
  obtain ⟨init, rfl, hinit⟩ := h
  induction init with
  | nil =>
    rw [List.nil_append, Parser.step, Goal.read, if_neg hkind] at hstep
    cases hopen : Goal.openStatement kind with
    | none => rw [hopen] at hstep; cases hstep
    | some opening =>
      rw [hopen] at hstep
      cases hstep
      exact ⟨opening, by simp, Goal.unitRest_not_mem_openStatement hopen⟩
  | cons goal init ih =>
    obtain ⟨hgoal, hinit⟩ := not_or.mp (mt List.mem_cons.mpr hinit)
    rw [List.cons_append, Parser.step] at hstep
    cases hread : goal.read kind with
    | refuse => rw [hread] at hstep; cases hstep
    | skip =>
      rw [hread] at hstep
      exact ih hinit hstep
    | take goals =>
      rw [hread] at hstep
      cases hstep
      have hgoals := Goal.unitRest_not_mem_read hread (Ne.symm hgoal)
      exact ⟨goals ++ init, by simp, by simp [hgoals, hinit]⟩

theorem Pending.steps (h : Pending goals) (hkinds : .endOfFile ∉ kinds)
    (hsteps : steps goals kinds = some stack) : Pending stack := by
  induction kinds generalizing goals with
  | nil => cases hsteps; exact h
  | cons kind rest ih =>
    obtain ⟨hkind, hrest⟩ := not_or.mp (mt List.mem_cons.mpr hkinds)
    rw [Parser.steps] at hsteps
    cases hstep : Parser.step goals kind with
    | none => rw [hstep] at hsteps; cases hsteps
    | some next =>
      rw [hstep] at hsteps
      exact ih (h.step (Ne.symm hkind) hstep) hrest hsteps

/-- **What the goals have read begins something that is accepted.** -/
theorem exists_accepts (hkinds : .endOfFile ∉ kinds)
    (h : steps [.unitRest] kinds = some stack) : ∃ more, Accepts (kinds ++ more) := by
  obtain ⟨init, rfl, hinit⟩ := Pending.steps ⟨[], rfl, nofun⟩ hkinds h
  have hcompletion : (init ++ [Goal.unitRest]).flatMap Goal.completion =
      init.flatMap Goal.completion ++ [.endOfFile] := by
    rw [List.flatMap_append]
    rfl
  have hsteps := steps_append h ((init ++ [Goal.unitRest]).flatMap Goal.completion)
  rw [steps_completion hinit, hcompletion, ← List.append_assoc] at hsteps
  refine ⟨init.flatMap Goal.completion ++ [.endOfFile], ?_⟩
  rw [← List.append_assoc]
  refine accepts_of_steps (fun hmem => ?_) (by rw [hsteps]; rfl)
  rcases List.mem_append.mp hmem with hmem | hmem
  · exact hkinds hmem
  · obtain ⟨goal, hgoal, hmem⟩ := List.mem_flatMap.mp hmem
    exact Goal.endOfFile_not_mem_completion (fun heq => hinit (heq ▸ hgoal)) hmem

/-- What no goal can read begins nothing that is accepted. -/
theorem not_accepts_of_step (h : steps [.unitRest] kinds = some stack)
    (hstep : step stack kind = none) (more : List Kind) : ¬ Accepts (kinds ++ kind :: more) := by
  intro haccepts
  have hsome := haccepts.isSome_steps
  rw [steps_append h, steps, hstep] at hsome
  cases hsome

/-- **A unit is refused at the first lexeme that is in the way.** -/
theorem unit_error {init : List Lexeme} {last : Lexeme} {error : SourceError}
    (hinit : ∀ lexeme ∈ init, lexeme.kind ≠ .endOfFile) (hlast : last.kind = .endOfFile)
    (h : unit (init ++ [last]) = .error error) :
    ∃ before bad after expected, init ++ [last] = before ++ bad :: after ∧
      error = .unexpectedToken bad.offset expected bad.text ∧
      (∃ more, Accepts (before.map Lexeme.kind ++ more)) ∧
      ∀ more, ¬ Accepts (before.map Lexeme.kind ++ bad.kind :: more) := by
  obtain ⟨expected, rfl, hne⟩ := unread_of_unit_error h
  have hne := hne ⟨last, by simp, hlast⟩
  rcases unread_cases [.unitRest] (init ++ [last]) with ⟨hnil, -⟩ | ⟨before, bad, after, stack,
      heq, hunread, hsteps, hstep⟩
  · exact absurd hnil hne
  · refine ⟨before, bad, after, expected, heq, by rw [hunread]; rfl, ?_,
      not_accepts_of_step hsteps hstep⟩
    refine exists_accepts (fun hmem => ?_) hsteps
    -- Something stands behind the lexemes that were read, so the last is not among them.
    obtain ⟨lexeme, hlexeme, hkind⟩ := List.mem_map.mp hmem
    have hlength := congrArg List.length heq
    simp only [List.length_append, List.length_cons, List.length_nil] at hlength
    obtain ⟨more, hmore⟩ : before <+: init := List.prefix_of_prefix_length_le
      ⟨bad :: after, heq.symm⟩ (List.prefix_append ..) (by omega)
    exact hinit lexeme (hmore ▸ List.mem_append_left _ hlexeme) hkind

end Parser
end SpacingLint
