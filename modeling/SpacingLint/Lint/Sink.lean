import SpacingLint.Lint.Diagnostic

/-! # Sinks

A sink is where diagnostics go.  It keeps those it accepts in the order in which
they come, and it may be closed: from the start, after a number of diagnostics, or
never.  A closed sink keeps what it has and refuses all that follows.
-/
namespace SpacingLint

/-- Why a report does not arrive. -/
inductive ReportError where
  /-- The sink takes no more. -/
  | sinkClosed
  /-- The span leaves the text, which has `length` bytes. -/
  | spanOutOfBounds (span : Span) (length : Nat)
deriving DecidableEq

namespace ReportError

/-- What is said about the error. -/
def message : ReportError → String
  | sinkClosed => "diagnostic sink is closed"
  | spanOutOfBounds span length =>
    s!"diagnostic span {span} lies outside the analyzed text (length {length})"

end ReportError

/-- A destination of diagnostics. -/
structure Sink where
  /-- How many more diagnostics it accepts; `none` if it never closes. -/
  room : Option Nat
  /-- What it accepted, oldest first. -/
  received : Array Diagnostic
deriving DecidableEq

namespace Sink

/-- A sink that never closes. -/
def collecting : Sink := ⟨none, #[]⟩

/-- A sink that accepts `count` diagnostics. -/
def accepting (count : Nat) : Sink := ⟨some count, #[]⟩

/-- A sink that accepts nothing. -/
def closed : Sink := accepting 0

/-- The sink after one more diagnostic; `none` if it refuses. -/
def accept? (sink : Sink) (diagnostic : Diagnostic) : Option Sink :=
  match sink.room with
  | none => some ⟨none, sink.received.push diagnostic⟩
  | some 0 => none
  | some (count + 1) => some ⟨some count, sink.received.push diagnostic⟩

/-- How many diagnostics it accepted. -/
def size (sink : Sink) : Nat := sink.received.size

/-- What it accepted, sorted for listing. -/
def listing (sink : Sink) : List Diagnostic := Diagnostic.listing sink.received.toList

end Sink
end SpacingLint
