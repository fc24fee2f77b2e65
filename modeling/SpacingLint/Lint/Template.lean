/-! # Message templates

A template is a text with placeholders.  A placeholder is a number between braces,
which may carry a plus sign and leading zeros, and stands for the argument of that
number, counted from zero.  A brace that opens no placeholder, or one whose number
has no argument, is text like any other, and reading goes on right behind it.  What
an argument brings in is never read for placeholders again.
-/
namespace SpacingLint

/-- What a placeholder can stand for. -/
inductive Argument where
  | text (value : String)
  | number (value : Int)
  | flag (value : Bool)
deriving DecidableEq

namespace Argument

/-- How an argument is written into a message. -/
def render : Argument → String
  | text value => value
  | number value => toString value
  | flag value => if value then "true" else "false"

end Argument

namespace Template

/-- The number that a run of decimal digits stands for. -/
def decimal (digits : List Char) : Nat :=
  digits.foldl (fun value digit => 10 * value + (digit.toNat - '0'.toNat)) 0

/-- The number between the braces of a placeholder: decimal digits, at least one,
after at most one plus sign. -/
def index? (cs : List Char) : Option Nat :=
  let digits := match cs with
    | '+' :: rest => rest
    | _ => cs
  if digits ≠ [] ∧ digits.all Char.isDigit then some (decimal digits) else none

/-- The placeholder whose opening brace stands right before a text, if there is one:
what replaces it, and the text behind its closing brace. -/
def placeholder? (arguments : List (List Char)) (cs : List Char) :
    Option (List Char × List Char) :=
  match cs.dropWhile (· ≠ '\x7d') with
  | [] => none
  | _ :: after => do
    let index ← index? (cs.takeWhile (· ≠ '\x7d'))
    let argument ← arguments[index]?
    return (argument, after)

theorem length_lt_of_placeholder? {arguments : List (List Char)} {cs value after : List Char}
    (h : placeholder? arguments cs = some (value, after)) : after.length < cs.length := by
  unfold placeholder? at h
  split at h
  · cases h
  · next rest hdrop =>
    have hlen : (cs.dropWhile (· ≠ '\x7d')).length ≤ cs.length :=
      (List.dropWhile_sublist _).length_le
    rw [hdrop, List.length_cons] at hlen
    simp only [Option.bind_eq_bind, Option.bind_eq_some_iff, Option.pure_def,
      Option.some.injEq, Prod.mk.injEq] at h
    obtain ⟨_, _, _, _, _, rfl⟩ := h
    omega

/-- A template with its placeholders filled in. -/
def fill (arguments : List (List Char)) (cs : List Char) : List Char :=
  match cs with
  | [] => []
  | c :: rest =>
    if c = '\x7b' then
      match _found : placeholder? arguments rest with
      | some (value, after) => value ++ fill arguments after
      | none => c :: fill arguments rest
    else c :: fill arguments rest
termination_by cs.length
decreasing_by
  · have := length_lt_of_placeholder? _found
    simp only [List.length_cons]
    omega
  all_goals simp

/-- A template with its placeholders filled in, as a text. -/
def render (template : String) (arguments : List Argument) : String :=
  String.ofList (fill (arguments.map (·.render.toList)) template.toList)

end Template
end SpacingLint
