import SpacingLint.Yaml.Cursor
import SpacingLint.Yaml.Folded

/-! # Plain scalars of YAML

A plain scalar ends before a colon that separates a key from its value and before a
comment.  Between braces it also ends before a brace, a bracket or a comma; outside
it ends before a line that does not stand deeper than the block around it.  A mark
between documents ends it everywhere.
-/
namespace SpacingLint
namespace Yaml

/-- Whether a character, given what follows it, ends a plain scalar even in the middle
of a word. -/
def endsWord (inFlow : Bool) (c : Char) (rest : List Char) : Bool :=
  (inFlow && isFlowMark c) || (c = ':' && (atGap rest || (inFlow && atFlowMark rest)))

/-- Whether a character ends a plain scalar because a word of it would begin there. -/
def endsBeforeWord (inFlow : Bool) (least : Int) (folded : Folded) (cursor : Cursor) : Bool :=
  cursor.rest.head? = some '#' ||
    (!inFlow && folded.isCrossing && decide (cursor.column < least)) ||
    (cursor.column = 0 && beginsWithMarker cursor.rest)

/-- The rest of a plain scalar, and the cursor behind it and the blanks and line breaks
after it, if reading takes at most `budget` steps.  `inWord` says whether the character
before was part of the scalar, `least` is the least column of its lines in a block. -/
def readPlain (inFlow : Bool) (least : Int) (budget : Nat) (inWord : Bool) (folded : Folded)
    (cursor : Cursor) : Option (Folded × Cursor) :=
  match budget, cursor.rest with
  | _, [] => some (folded, cursor)
  | 0, _ => none
  | budget + 1, '\n' :: _ =>
    readPlain inFlow least budget false folded.crossLine cursor.nextLine
  | budget + 1, c :: rest =>
    if isBlank c then
      if c = '\t' && folded.isCrossing && decide (cursor.column < least) then do
        let (_, behind) ← cursor.skipGap?
        if behind.atLineEnd then readPlain inFlow least budget false folded behind else none
      else readPlain inFlow least budget false (folded.pushBlank c) (cursor.advance 1)
    else if endsWord inFlow c rest then some (folded, cursor)
    else if inWord then readPlain inFlow least budget true (folded.push c) (cursor.advance 1)
    else if endsBeforeWord inFlow least folded cursor then some (folded, cursor)
    else if inFlow && c = '-' && atFlowMark rest then none
    else readPlain inFlow least budget true (folded.push c) (cursor.advance 1)

end Yaml
end SpacingLint
