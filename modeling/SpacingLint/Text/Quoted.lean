import SpacingLint.Text.Invisible

/-! # Quoted text

Messages and snapshots show texts between quotation marks.  A mark of the chosen
kind and the backslash are written after a backslash, the tab, the line breaks and
the null character have letters of their own, and every other character that
cannot be read off a line is written as its code point in hexadecimal.  All else
stands for itself, so a quoted text never spans two lines.
-/
namespace SpacingLint
namespace Text

/-- The code point of a character as an escape: `\u`, then lower-case hexadecimal
digits without leading zeros between braces. -/
def codeEscape (c : Char) : List Char :=
  ['\\', 'u', '\x7b'] ++ Nat.toDigits 16 c.toNat ++ ['\x7d']

/-- How one character is written between two marks of the kind `mark`. -/
def quoteChar (mark c : Char) : List Char :=
  if c = '\t' then ['\\', 't']
  else if c = '\r' then ['\\', 'r']
  else if c = '\n' then ['\\', 'n']
  else if c = '\x00' then ['\\', '0']
  else if c = '\\' ∨ c = mark then ['\\', c]
  else if isInvisible c then codeEscape c
  else [c]

/-- A list of characters between two marks. -/
def quoteWith (mark : Char) (cs : List Char) : List Char :=
  mark :: (cs.flatMap (quoteChar mark) ++ [mark])

/-- A text in double quotation marks. -/
def quoted (text : String) : String :=
  String.ofList (quoteWith '"' text.toList)

/-- A single character in single quotation marks. -/
def quotedChar (c : Char) : String :=
  String.ofList (quoteWith '\'' [c])

end Text
end SpacingLint
