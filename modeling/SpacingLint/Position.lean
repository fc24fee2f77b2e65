import SpacingLint.Span
import SpacingLint.Text.Measure

/-! # Lines and editor positions

A text is read by offset, an editor by line and column.  The line index of a text
holds the offset at which each line starts; a line ends after a line feed and
nowhere else, so the index of a text without one has a single entry.  The line of
an offset is the last that starts at or before it, found by halving.

Columns come in two units.  `LineIndex.lineColumn` counts bytes and answers for
every offset, also one past the end.  `LineIndex.position` counts UTF-16 code
units, as editors do, where the offset is a boundary between characters of the
text, and bytes elsewhere.  Its numbers are 32 bits wide.
-/
namespace SpacingLint

/-- A place in an editor, counted from zero. -/
structure Position where
  /-- The line. -/
  line : UInt32
  /-- The column within the line, in UTF-16 code units. -/
  character : UInt32
deriving DecidableEq, Inhabited

namespace Position

/-- Positions are compared by line, then by column. -/
instance : Ord Position := ⟨compareLex (compareOn line) (compareOn character)⟩

end Position

/-- A stretch of text in an editor. -/
structure Range where
  /-- Where it starts. -/
  start : Position
  /-- Where it stops: the position just after it. -/
  stop : Position
deriving DecidableEq, Inhabited

/-- Where the lines of a text start. -/
structure LineIndex where
  /-- The offsets at which lines start, in ascending order; the first is zero. -/
  starts : Array Nat
deriving DecidableEq

namespace LineIndex

/-- The offsets just after each line feed of a text that begins at `offset`. -/
def startsAfter (offset : Nat) : List Char → List Nat
  | [] => []
  | c :: cs =>
    let next := offset + c.utf8Size
    if c = '\n' then next :: startsAfter next cs else startsAfter next cs

/-- The index of a text. -/
def ofText (text : String) : LineIndex :=
  ⟨(0 :: startsAfter 0 text.toList).toArray⟩

/-- Where a line starts. -/
def startOf (index : LineIndex) (line : Nat) : Nat := index.starts.getD line 0

/-- The last of the lines from `low` up to, not including, `high` that starts at or
before `offset`, given that line `low` does: the interval is halved until one line
is left. -/
def search (index : LineIndex) (offset low high : Nat) : Nat :=
  if high ≤ low + 1 then low
  else
    let middle := (low + high) / 2
    if index.startOf middle ≤ offset then search index offset middle high
    else search index offset low middle
termination_by high - low
decreasing_by all_goals omega

/-- The line that an offset lies in. -/
def lineOf (index : LineIndex) (offset : Nat) : Nat :=
  index.search offset 0 index.starts.size

/-- Line and column of an offset, the column in bytes. -/
def lineColumn (index : LineIndex) (offset : Nat) : Nat × Nat :=
  let line := index.lineOf offset
  (line, offset - index.startOf line)

/-- The place of an offset in an editor that shows `text`, which is meant to be the
text the index was made from.  The column is the number of UTF-16 code units from
the start of the line, or the byte column if `text` cannot be cut at both places. -/
def position (index : LineIndex) (text : String) (offset : Nat) : Position :=
  let (line, column) := index.lineColumn offset
  let character :=
    match Text.slice? text.toList (index.startOf line) offset with
    | some before => Text.units before
    | none => column
  ⟨UInt32.ofNat line, UInt32.ofNat character⟩

/-- The stretch of text under a span. -/
def range (index : LineIndex) (text : String) (span : Span) : Range :=
  ⟨index.position text span.start, index.position text span.stop⟩

end LineIndex
end SpacingLint
