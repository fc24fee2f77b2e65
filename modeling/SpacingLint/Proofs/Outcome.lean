/-! # Outcomes

A computation that may fail comes to a result or to an error.  One in two steps comes to a result
if both of its steps do, and fails if either does.  What is asked of an outcome by a question that
can be evaluated is known of the outcome.
-/
namespace SpacingLint

/-- A computation in two steps succeeds if both steps do. -/
theorem bind_eq_ok_iff {ε α β : Type} {first : Except ε α} {more : α → Except ε β} {result : β} :
    first >>= more = .ok result ↔ ∃ value, first = .ok value ∧ more value = .ok result := by
  cases first with
  | error error =>
    constructor
    · nofun
    · rintro ⟨_, heq, _⟩
      cases heq
  | ok value =>
    constructor
    · exact fun h => ⟨value, rfl, h⟩
    · rintro ⟨_, heq, h⟩
      cases heq
      exact h

/-- It fails if the first step does, or the second behind it. -/
theorem bind_eq_error_iff {ε α β : Type} {first : Except ε α} {more : α → Except ε β} {error : ε} :
    first >>= more = .error error ↔
      first = .error error ∨ ∃ value, first = .ok value ∧ more value = .error error := by
  cases first with
  | error inner =>
    constructor
    · intro h
      cases h
      exact .inl rfl
    · rintro (h | ⟨_, heq, _⟩)
      · cases h
        rfl
      · cases heq
  | ok value =>
    constructor
    · exact fun h => .inr ⟨value, rfl, h⟩
    · rintro (heq | ⟨_, heq, h⟩)
      · cases heq
      · cases heq
        exact h

theorem eq_ok_of_toOption {ε α : Type} {result : Except ε α} {value : α}
    (h : result.toOption = some value) : result = .ok value := by
  cases result with
  | ok _ => exact congrArg Except.ok (Option.some.inj h)
  | error _ => cases h

theorem eq_error_of_match {ε α : Type} {result : Except ε α} {error : ε}
    (h : (match result with
      | .error error => some error
      | .ok _ => none) = some error) : result = .error error := by
  cases result with
  | ok _ => cases h
  | error _ => exact congrArg Except.error (Option.some.inj h)

end SpacingLint
