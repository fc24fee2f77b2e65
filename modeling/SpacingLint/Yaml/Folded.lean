/-! # Folded text

A scalar may go on over several lines.  The blanks around a line break do not count;
a single break stands for a space, and of several breaks all but the first stand for
line feeds.  Blanks within a line count if something of the scalar follows them in
that line.
-/
namespace SpacingLint
namespace Yaml

/-- A scalar that is being read. -/
structure Folded where
  /-- What it holds so far, newest first. -/
  text : List Char := []
  /-- Blanks that count only if no line break follows, newest first. -/
  blanks : List Char := []
  /-- Set while line breaks are being crossed: what stands for those but the first. -/
  feeds : Option (List Char) := none
  /-- Whether the first break stands for a space as long as it is the only one. -/
  spaced : Bool := false

namespace Folded

/-- Whether line breaks are being crossed. -/
def isCrossing (folded : Folded) : Bool := folded.feeds.isSome

/-- The scalar before a character that counts: blanks and line breaks before it are
settled. -/
def settle (folded : Folded) : Folded :=
  match folded.feeds with
  | none => { folded with text := folded.blanks ++ folded.text, blanks := [] }
  | some feeds =>
    let crossed := if feeds.isEmpty && folded.spaced then [' '] else feeds
    { folded with text := crossed ++ folded.text, blanks := [], feeds := none }

/-- The scalar with one more character. -/
def push (folded : Folded) (c : Char) : Folded :=
  let settled := folded.settle
  { settled with text := c :: settled.text }

/-- The scalar behind a blank. -/
def pushBlank (folded : Folded) (c : Char) : Folded :=
  if folded.isCrossing then folded else { folded with blanks := c :: folded.blanks }

/-- The scalar behind a line break. -/
def crossLine (folded : Folded) : Folded :=
  match folded.feeds with
  | none => { folded with blanks := [], feeds := some [], spaced := true }
  | some feeds => { folded with feeds := some ('\n' :: feeds) }

/-- The scalar behind a line break that stands for nothing; blanks before it count. -/
def joinLine (folded : Folded) : Folded :=
  { folded.settle with feeds := some [], spaced := false }

/-- What a scalar holds whose blanks and breaks at the end do not count. -/
def trimmed (folded : Folded) : String := String.ofList folded.text.reverse

/-- What a scalar holds whose blanks and breaks at the end count. -/
def whole (folded : Folded) : String := folded.settle.trimmed

end Folded
end Yaml
end SpacingLint
