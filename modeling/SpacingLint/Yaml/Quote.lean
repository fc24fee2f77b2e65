import SpacingLint.Yaml.Cursor
import SpacingLint.Yaml.Folded

/-! # Quoted scalars of YAML

Between single quotes everything stands for itself, and a single quote is written
twice.  Between double quotes a backslash begins an escape; a character beyond the
basic plane may be written as the two surrogates that stand for it.

A quoted scalar may go on over several lines, wherever they begin, but no line in it
begins with a mark between documents, and no tab indents a line less than the block
around it.  A backslash at the end of a line joins it to the next.
-/
namespace SpacingLint
namespace Yaml

/-! ## Escapes -/

/-- The value of a hexadecimal digit. -/
def hexDigit? (c : Char) : Option Nat :=
  if c.isDigit then some (c.toNat - '0'.toNat)
  else if 'a' ≤ c ∧ c ≤ 'f' then some (c.toNat - 'a'.toNat + 10)
  else if 'A' ≤ c ∧ c ≤ 'F' then some (c.toNat - 'A'.toNat + 10)
  else none

/-- The number that the first `count` characters give as hexadecimal digits. -/
def hexNumber? (count : Nat) (cs : List Char) : Option Nat :=
  if cs.length < count then none
  else (cs.take count).foldlM (fun code digit => (hexDigit? digit).map (16 * code + ·)) 0

/-- The character of a code point; surrogates and numbers beyond the code space have
none. -/
def ofCode? (code : Nat) : Option Char :=
  if code.isValidChar then some (Char.ofNat code) else none

/-- What a letter stands for behind a backslash. -/
def escape? : Char → Option Char
  | '0' => some '\x00'
  | 'a' => some '\x07'
  | 'b' => some '\x08'
  | 't' | '\t' => some '\t'
  | 'n' => some '\n'
  | 'v' => some '\x0b'
  | 'f' => some '\x0c'
  | 'r' => some '\r'
  | 'e' => some '\x1b'
  | ' ' => some ' '
  | '"' => some '"'
  | '/' => some '/'
  | '\\' => some '\\'
  | 'N' => some '\u0085'
  | '_' => some '\u00a0'
  | 'L' => some '\u2028'
  | 'P' => some '\u2029'
  | _ => none

/-- How many hexadecimal digits follow a letter behind a backslash. -/
def escapeDigits? : Char → Option Nat
  | 'x' => some 2
  | 'u' => some 4
  | 'U' => some 8
  | _ => none

/-- The character that an escape stands for, and how many characters it takes.  The
text begins behind the backslash. -/
def readEscape? : List Char → Option (Char × Nat)
  | [] => none
  | c :: rest =>
    match escapeDigits? c with
    | none => (escape? c).map (·, 1)
    | some count => do
      let code ← hexNumber? count rest
      if 0xd800 ≤ code ∧ code < 0xdc00 ∧ count = 4 then
        match rest.drop 4 with
        | '\\' :: 'u' :: more => do
          let low ← hexNumber? 4 more
          if 0xdc00 ≤ low ∧ low < 0xe000 then
            let joined ← ofCode? (0x10000 + (code - 0xd800) * 0x400 + (low - 0xdc00))
            return (joined, 11)
          else none
        | _ => none
      else
        let escaped ← ofCode? code
        return (escaped, count + 1)

/-! ## Scalars -/

/-- Whether a tab at the cursor would indent a line less than to the column `indent`. -/
def misindents (indent : Int) (folded : Folded) (cursor : Cursor) : Bool :=
  cursor.rest.head? = some '\t' && folded.isCrossing && decide (cursor.column < indent)

/-- The rest of a scalar in single quotes, and the cursor behind it, if reading takes at
most `budget` steps. -/
def readSingle (indent : Int) (budget : Nat) (folded : Folded) (cursor : Cursor) :
    Option (String × Cursor) :=
  match budget, cursor.rest with
  | 0, _ | _, [] => none
  | budget + 1, '\'' :: '\'' :: _ =>
    readSingle indent budget (folded.push '\'') (cursor.advance 2)
  | _, '\'' :: _ => some (folded.whole, cursor.advance 1)
  | budget + 1, '\n' :: rest =>
    if beginsWithMarker rest then none
    else readSingle indent budget folded.crossLine cursor.nextLine
  | budget + 1, c :: _ =>
    if isBlank c then
      if misindents indent folded cursor then none
      else readSingle indent budget (folded.pushBlank c) (cursor.advance 1)
    else readSingle indent budget (folded.push c) (cursor.advance 1)

/-- The rest of a scalar in double quotes, and the cursor behind it, if reading takes at
most `budget` steps. -/
def readDouble (indent : Int) (budget : Nat) (folded : Folded) (cursor : Cursor) :
    Option (String × Cursor) :=
  match budget, cursor.rest with
  | 0, _ | _, [] => none
  | _, '"' :: _ => some (folded.whole, cursor.advance 1)
  | budget + 1, '\n' :: rest =>
    if beginsWithMarker rest then none
    else readDouble indent budget folded.crossLine cursor.nextLine
  | budget + 1, '\\' :: '\n' :: rest =>
    if beginsWithMarker rest then none
    else readDouble indent budget folded.joinLine (cursor.advance 1).nextLine
  | budget + 1, '\\' :: rest => do
    let (escaped, width) ← readEscape? rest
    readDouble indent budget (folded.push escaped) (cursor.advance (1 + width))
  | budget + 1, c :: _ =>
    if isBlank c then
      if misindents indent folded cursor then none
      else readDouble indent budget (folded.pushBlank c) (cursor.advance 1)
    else readDouble indent budget (folded.push c) (cursor.advance 1)

/-- The scalar in the quotes at the cursor, and the cursor behind it. -/
def readQuoted (indent : Int) (cursor : Cursor) : Option (String × Cursor) :=
  match cursor.rest with
  | '\'' :: rest => readSingle indent (rest.length + 1) {} (cursor.advance 1)
  | '"' :: rest => readDouble indent (rest.length + 1) {} (cursor.advance 1)
  | _ => none

/-- Whether a text may follow a quoted scalar and the blanks after it: the end of the
line, or a colon if the scalar can be a key, or what ends an entry between braces. -/
def mayFollowQuote (inFlow oneLine : Bool) : List Char → Bool
  | [] => true
  | c :: _ => c = '\n' || (c = ':' && (inFlow || oneLine)) ||
    (inFlow && [',', '\x7d', ']'].contains c)

end Yaml
end SpacingLint
