/-! # Reading places

A cursor is a place in a text together with what follows it.  Lines end at line
feeds: `normalize` puts one for every line break before reading begins.  Columns
count characters.
-/
namespace SpacingLint
namespace Yaml

/-! ## Characters -/

/-- The blanks within a line. -/
def isBlank (c : Char) : Bool := c = ' ' || c = '\t'

/-- Whether a text begins with a blank or a line break, or is at its end. -/
def atGap : List Char → Bool
  | [] => true
  | c :: _ => isBlank c || c = '\n'

/-- The characters that structure mappings and sequences between braces and brackets. -/
def isFlowMark (c : Char) : Bool := [',', '[', ']', '\x7b', '\x7d'].contains c

/-- Whether a text begins with a character that structures mappings and sequences. -/
def atFlowMark (cs : List Char) : Bool := cs.head?.any isFlowMark

/-- The characters of words that a tab alone does not separate from a colon. -/
def isWordPart (c : Char) : Bool := c.isAlphanum || c = '_' || c = '-'

/-- Whether a line begins with a mark between documents: three hyphens or three dots
and a gap. -/
def beginsWithMarker : List Char → Bool
  | '-' :: '-' :: '-' :: rest | '.' :: '.' :: '.' :: rest => atGap rest
  | _ => false

/-- The text up to the first null character, which ends it, with a line feed for each
line break and without a mark of byte order in front. -/
def normalize (cs : List Char) : List Char :=
  match cs.takeWhile (· ≠ '\x00') with
  | '\ufeff' :: rest => breaks rest
  | cs => breaks cs
where
  /-- A line feed for each line break. -/
  breaks : List Char → List Char
    | [] => []
    | '\r' :: '\n' :: rest => '\n' :: breaks rest
    | '\r' :: rest => '\n' :: breaks rest
    | c :: rest => c :: breaks rest

/-! ## Cursors -/

/-- A place in a text and what follows it. -/
structure Cursor where
  /-- The line. -/
  line : Nat
  /-- The column. -/
  column : Nat
  /-- What follows. -/
  rest : List Char

namespace Cursor

/-- The beginning of a text. -/
def start (cs : List Char) : Cursor := ⟨0, 0, cs⟩

/-- Some characters further in the same line. -/
def advance (cursor : Cursor) (count : Nat) : Cursor :=
  { cursor with column := cursor.column + count, rest := cursor.rest.drop count }

/-- The beginning of the next line, from a line feed. -/
def nextLine (cursor : Cursor) : Cursor := ⟨cursor.line + 1, 0, cursor.rest.tail⟩

/-- The end of the line. -/
def lineEnd (cursor : Cursor) : Cursor :=
  cursor.advance (cursor.rest.takeWhile (· ≠ '\n')).length

/-- Whether nothing more stands in the line. -/
def atLineEnd (cursor : Cursor) : Bool := cursor.rest.head?.all (· = '\n')

/-- Behind blanks and a comment, with the blanks; a comment needs a blank before it. -/
def skipGap? (cursor : Cursor) : Option (List Char × Cursor) :=
  let blanks := cursor.rest.takeWhile isBlank
  let behind := cursor.advance blanks.length
  match behind.rest with
  | '#' :: _ => if blanks.isEmpty then none else some (blanks, behind.lineEnd)
  | _ => some (blanks, behind)

end Cursor
end Yaml
end SpacingLint
