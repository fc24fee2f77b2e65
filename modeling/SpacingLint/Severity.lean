/-! # Severities

How much a diagnostic matters, from one that an editor does not even show to an
error.  The order is the order of the constructors.
-/
namespace SpacingLint

/-- How much a diagnostic matters, least first. -/
inductive Severity where
  | hidden
  | info
  | warning
  | error
deriving DecidableEq, Inhabited

namespace Severity

/-- Every severity, least severe first. -/
def all : List Severity := [hidden, info, warning, error]

/-- The place of a severity in the order. -/
def rank : Severity → Nat
  | hidden => 0
  | info => 1
  | warning => 2
  | error => 3

/-- Severities are compared by rank. -/
instance : Ord Severity := ⟨compareOn rank⟩

/-- The name a severity is shown under. -/
def name : Severity → String
  | hidden => "hidden"
  | info => "info"
  | warning => "warning"
  | error => "error"

instance : ToString Severity := ⟨name⟩

/-- The severity of a name. -/
def ofName? (name : String) : Option Severity :=
  all.find? fun severity => severity.name == name

end Severity
end SpacingLint
