import SpacingLint.Lint.Template
import SpacingLint.Severity
import SpacingLint.Span

/-! # Rules' identities and what they report

A descriptor is the identity of a rule: its id, what it is called, the template of
its messages and how it is graded.  A diagnostic is one finding of a rule at a span
of text.  Diagnostics are listed by span and then by rule id; those that agree in
both stay in the order in which they were reported.
-/
namespace SpacingLint

/-- The identity of a rule. -/
structure Descriptor where
  /-- What the rule is known by. -/
  id : String
  /-- What the rule is called. -/
  title : String
  /-- The template of its messages. -/
  messageFormat : String
  /-- The group it belongs to. -/
  category : String
  /-- How much its findings matter. -/
  severity : Severity
  /-- Whether it runs when nothing is said about it. -/
  enabledByDefault : Bool
  /-- What it checks. -/
  description : String
deriving DecidableEq

namespace Descriptor

/-- The message of the rule with its placeholders filled in. -/
def renderMessage (descriptor : Descriptor) (arguments : List Argument) : String :=
  Template.render descriptor.messageFormat arguments

end Descriptor

/-- A finding. -/
structure Diagnostic where
  /-- The rule that made it. -/
  descriptor : Descriptor
  /-- How much it matters. -/
  severity : Severity
  /-- What it says. -/
  message : String
  /-- Where it is. -/
  span : Span
deriving DecidableEq

namespace Diagnostic

/-- A finding with a message as given, graded as the rule is. -/
def ofMessage (descriptor : Descriptor) (span : Span) (message : String) : Diagnostic :=
  ⟨descriptor, descriptor.severity, message, span⟩

/-- A finding with the message of the rule. -/
def ofArguments (descriptor : Descriptor) (span : Span) (arguments : List Argument) :
    Diagnostic :=
  ofMessage descriptor span (descriptor.renderMessage arguments)

/-- The id of the rule that made it. -/
def ruleId (diagnostic : Diagnostic) : String := diagnostic.descriptor.id

instance : ToString Diagnostic where
  toString d := s!"{d.severity}[{d.ruleId}] {d.span}: {d.message}"

/-! ## Order -/

/-- Diagnostics are listed by span, then by rule id.  Texts are compared character by
character, which is the order of their UTF-8 bytes. -/
def listingOrder : Diagnostic → Diagnostic → Ordering :=
  compareLex (compareOn span) (compareOn ruleId)

/-- The order of listing, ties broken by message. -/
def fullOrder : Diagnostic → Diagnostic → Ordering :=
  compareLex listingOrder (compareOn message)

/-- Diagnostics sorted for listing. -/
def listing (diagnostics : List Diagnostic) : List Diagnostic :=
  diagnostics.mergeSort fun a b => (listingOrder a b).isLE

/-- Diagnostics sorted so that only equal lines can change places: the listing of a
run whose reports come in no particular order. -/
def fullListing (diagnostics : List Diagnostic) : List Diagnostic :=
  diagnostics.mergeSort fun a b => (fullOrder a b).isLE

/-- A numbered list of diagnostics, one a line. -/
def snapshot (diagnostics : List Diagnostic) : String :=
  if diagnostics.isEmpty then "(no diagnostics)"
  else
    String.intercalate "\n" <| diagnostics.mapIdx fun index diagnostic =>
      "[" ++ toString (index + 1) ++ "] " ++ toString diagnostic

end Diagnostic
end SpacingLint
