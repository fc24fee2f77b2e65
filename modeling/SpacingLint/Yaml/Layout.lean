import SpacingLint.Yaml.Plain
import SpacingLint.Yaml.Quote
import SpacingLint.Yaml.Token

/-! # Layout of YAML texts

In blocks columns decide what belongs to what: the keys of a mapping stand in one
column, and a line further to the left ends the mapping.  `Layout` is what is known at
a place of a text: the columns of the blocks around it and whether it is between
braces; the tokens before it; and where a key may have begun.

No mark tells that a scalar, or what stands between braces, is a key until the colon
after it is found.  So a place where a key may begin is kept as pending.  It stops
being one where the line ends or goes on for too long, except between braces.  In the
column of a mapping nothing but a key may begin; there a pending key must come true.
-/
namespace SpacingLint
namespace Yaml

/-- A place where a key may have begun. -/
structure KeyStart where
  /-- How many tokens stand before it. -/
  number : Nat
  /-- Its line. -/
  line : Nat
  /-- Its column. -/
  column : Nat
  /-- Whether nothing but a key may begin there. -/
  required : Bool

/-- How far a key of a block may reach at most. -/
def maxKeyLength : Nat := 1024

/-- What is known at a place of a text. -/
structure Layout where
  /-- The place. -/
  cursor : Cursor
  /-- The tokens before it. -/
  tokens : Array Token := #[]
  /-- How many of them cannot turn out to follow the beginning of a key. -/
  ready : Nat := 0
  /-- The column of the block around it, or less than any. -/
  indent : Int := -1
  /-- The columns of the blocks around that one, innermost first.  Each comes with whether
  a mark stands for the end of the block inside it. -/
  outer : List (Int × Bool) := []
  /-- Where a key may have begun. -/
  pending : Option KeyStart := none
  /-- The same for what surrounds each open brace or bracket, innermost first. -/
  around : List (Option KeyStart) := []
  /-- Whether a key may begin here. -/
  keyAllowed : Bool := true
  /-- Whether only blanks stand before the place in its line. -/
  lineStart : Bool := true
  /-- Line and column of the place at which a colon needs no gap after it. -/
  adjacent : Option (Nat × Nat) := none

namespace Layout

/-- The beginning of a text. -/
def start (cs : List Char) : Layout := { cursor := Cursor.start cs }

/-- Whether the place is between braces or brackets. -/
def inFlow (layout : Layout) : Bool := !layout.around.isEmpty

/-- Behind some characters other than blanks. -/
def advance (layout : Layout) (count : Nat) : Layout :=
  { layout with cursor := layout.cursor.advance count, lineStart := false }

/-- With one more token. -/
def push (layout : Layout) (token : Token) : Layout :=
  { layout with tokens := layout.tokens.push token }

/-- With one more token before those that follow the first `number` ones. -/
def insert (layout : Layout) (number : Nat) (token : Token) : Layout :=
  { layout with tokens := layout.tokens.insertIdxIfInBounds number token }

/-- With a key allowed. -/
def allowKey (layout : Layout) : Layout := { layout with keyAllowed := true }

/-- With no key allowed. -/
def forbidKey (layout : Layout) : Layout := { layout with keyAllowed := false }

/-- Inside one more brace or bracket. -/
def openFlow (layout : Layout) : Layout :=
  { layout with around := layout.pending :: layout.around, pending := none }

/-- Outside the innermost brace or bracket. -/
def closeFlow (layout : Layout) : Layout :=
  { layout with around := layout.around.tail, pending := layout.around.head?.join }

/-- With no gap needed after a colon here. -/
def allowAdjacent (layout : Layout) : Layout :=
  { layout with adjacent := some (layout.cursor.line, layout.cursor.column) }

/-- Whether a colon needs no gap after it here. -/
def isAdjacent (layout : Layout) : Bool :=
  layout.adjacent = some (layout.cursor.line, layout.cursor.column)

/-! ## Columns -/

/-- Whether a mark stands for the end of the block around the place. -/
def isBlock (layout : Layout) : Bool := layout.outer.head?.any (·.2)

/-- The columns around the place once those are left that end without a mark. -/
def dropLoose (indent : Int) : List (Int × Bool) → Int × List (Int × Bool)
  | (wider, false) :: outer => dropLoose wider outer
  | outer => (indent, outer)

/-- With the columns left that end without a mark. -/
def unrollLoose (layout : Layout) : Layout :=
  let (indent, outer) := dropLoose layout.indent layout.outer
  { layout with indent, outer }

/-- With the blocks left that stand to the right of a column, and marks for their ends.
Between braces columns end nothing. -/
def unroll (layout : Layout) (column : Int) : Layout :=
  if layout.inFlow then layout else go layout.indent layout.outer layout
where
  /-- Leaves one block after another. -/
  go (indent : Int) (outer : List (Int × Bool)) (layout : Layout) : Layout :=
    if indent ≤ column then { layout with indent, outer }
    else
      match outer with
      | [] => { layout with indent, outer }
      | (wider, marked) :: outer =>
        go wider outer (if marked then layout.push .blockEnd else layout)

/-- With a block that begins in a column, unless it is there already, and the mark of
its beginning behind the first `number` tokens.  Between braces there are no blocks. -/
def roll (layout : Layout) (column number : Nat) (token : Token) : Layout :=
  if layout.inFlow then layout
  else
    let (indent, outer) :=
      match layout.outer with
      | (wider, false) :: outer =>
        if layout.indent ≤ column then (wider, outer) else (layout.indent, layout.outer)
      | outer => (layout.indent, outer)
    if indent < column then
      { layout.insert number token with indent := column, outer := (indent, true) :: outer }
    else { layout with indent, outer }

/-- With what follows kept one column to the right of the block around the place. -/
def rollOne (layout : Layout) : Layout :=
  if !layout.inFlow && layout.isBlock then
    { layout with indent := layout.indent + 1, outer := (layout.indent, false) :: layout.outer }
  else layout

/-! ## Keys -/

/-- With the place kept as one where a key may begin, if one may. -/
def saveKey (layout : Layout) : Layout :=
  if layout.keyAllowed then
    { layout with
      pending := some
        { number := layout.tokens.size
          line := layout.cursor.line
          column := layout.cursor.column
          required :=
            !layout.inFlow && decide (layout.indent = layout.cursor.column) && layout.isBlock } }
  else layout

/-- With the pending key given up; it must not be required. -/
def dropKey? (layout : Layout) : Option Layout :=
  if layout.pending.any (·.required) then none else some { layout with pending := none }

/-- With the pending key given up if it can no longer come true here. -/
def settleKey? (layout : Layout) : Option Layout :=
  match layout.pending with
  | none => some layout
  | some key =>
    if !layout.inFlow &&
        (key.line < layout.cursor.line || key.column + maxKeyLength < layout.cursor.column) then
      layout.dropKey?
    else some layout

/-- With all tokens ready that do not follow the beginning of a pending key. -/
def settle (layout : Layout) : Layout :=
  let pending := (layout.pending :: layout.around).filterMap (·.map (·.number))
  { layout with ready := pending.foldl min layout.tokens.size }

/-- The tokens that are ready. -/
def settled (layout : Layout) : List Token := layout.tokens.toList.take layout.ready

end Layout
end Yaml
end SpacingLint
