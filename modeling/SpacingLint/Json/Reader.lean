import SpacingLint.Json.Basic

/-! # Reading JSON

The grammar is strict: one value with blanks around it and nothing else.  Blanks are
the space, the tab, the line feed and the carriage return.  Texts are in double
quotes, hold no control characters, and spell code units beyond the basic plane by
pairs of surrogates; a surrogate without its partner is refused.  Numbers carry no
leading zeros and no plus sign.

A text is cut into tokens first.  Values are then read off the tokens with a budget
of steps that is larger than any text of that many tokens can use up.
-/
namespace SpacingLint
namespace Json

/-- A token of a JSON text. -/
inductive Token where
  | openBrace
  | closeBrace
  | openBracket
  | closeBracket
  | comma
  | colon
  /-- A value that has no parts. -/
  | value (value : Json)

/-! ## Characters -/

/-- The blanks between tokens. -/
def isBlank (c : Char) : Bool := c = ' ' || c = '\t' || c = '\n' || c = '\r'

/-- The value of a hexadecimal digit. -/
def hexDigit? (c : Char) : Option Nat :=
  if c.isDigit then some (c.toNat - '0'.toNat)
  else if 'a' ≤ c ∧ c ≤ 'f' then some (c.toNat - 'a'.toNat + 10)
  else if 'A' ≤ c ∧ c ≤ 'F' then some (c.toNat - 'A'.toNat + 10)
  else none

/-- The value of four hexadecimal digits. -/
def hexUnit? (a b c d : Char) : Option Nat := do
  let a ← hexDigit? a
  let b ← hexDigit? b
  let c ← hexDigit? c
  let d ← hexDigit? d
  return ((a * 16 + b) * 16 + c) * 16 + d

/-- A code unit that begins a pair. -/
def isHighSurrogate (unit : Nat) : Bool := 0xD800 ≤ unit && unit < 0xDC00

/-- A code unit that ends a pair. -/
def isLowSurrogate (unit : Nat) : Bool := 0xDC00 ≤ unit && unit < 0xE000

/-- The character of a pair of code units. -/
def ofSurrogates (high low : Nat) : Char :=
  Char.ofNat (0x10000 + (high - 0xD800) * 0x400 + (low - 0xDC00))

/-- What stands for itself or for a control character behind a backslash. -/
def escape? : Char → Option Char
  | '"' => some '"'
  | '\\' => some '\\'
  | '/' => some '/'
  | 'b' => some '\x08'
  | 'f' => some '\x0c'
  | 'n' => some '\n'
  | 'r' => some '\r'
  | 't' => some '\t'
  | _ => none

/-! ## Texts and numbers -/

/-- The rest of a text behind its opening quote: its characters, and what follows its
closing quote. -/
def textBody : List Char → Option (List Char × List Char)
  | [] => none
  | '"' :: rest => some ([], rest)
  | '\\' :: 'u' :: a :: b :: c :: d :: '\\' :: 'u' :: e :: f :: g :: h :: rest => do
    let first ← hexUnit? a b c d
    if isHighSurrogate first then
      let second ← hexUnit? e f g h
      if isLowSurrogate second then
        let (more, after) ← textBody rest
        return (ofSurrogates first second :: more, after)
      else none
    else if isLowSurrogate first then none
    else
      let (more, after) ← textBody ('\\' :: 'u' :: e :: f :: g :: h :: rest)
      return (Char.ofNat first :: more, after)
  | '\\' :: 'u' :: a :: b :: c :: d :: rest => do
    let unit ← hexUnit? a b c d
    if isHighSurrogate unit || isLowSurrogate unit then none
    else
      let (more, after) ← textBody rest
      return (Char.ofNat unit :: more, after)
  | '\\' :: c :: rest => do
    let escaped ← escape? c
    let (more, after) ← textBody rest
    return (escaped :: more, after)
  | c :: rest =>
    if c.toNat < 0x20 then none
    else do
      let (more, after) ← textBody rest
      return (c :: more, after)

/-- At least one digit, and what follows the digits. -/
def digits? (cs : List Char) : Option (List Char × List Char) :=
  match cs.takeWhile Char.isDigit with
  | [] => none
  | digits => some (digits, cs.dropWhile Char.isDigit)

/-- The digits before the point: none but the only one may be a leading zero. -/
def wholePart? (cs : List Char) : Option (List Char × List Char) :=
  match cs with
  | '0' :: rest => some (['0'], rest)
  | _ => digits? cs

/-- A point and digits, if there is a point. -/
def fraction? (cs : List Char) : Option (List Char × List Char) :=
  match cs with
  | '.' :: rest => (digits? rest).map fun (digits, after) => ('.' :: digits, after)
  | _ => some ([], cs)

/-- The letter of an exponent, its sign and its digits, if there is such a letter. -/
def exponent? (cs : List Char) : Option (List Char × List Char) :=
  match cs with
  | c :: rest =>
    if c = 'e' || c = 'E' then
      match rest with
      | '+' :: after | '-' :: after =>
        (digits? after).map fun (digits, last) => (c :: rest.take 1 ++ digits, last)
      | _ => (digits? rest).map fun (digits, last) => (c :: digits, last)
    else some ([], cs)
  | [] => some ([], cs)

/-- The number that a run of decimal digits stands for. -/
def decimal (digits : List Char) : Nat :=
  digits.foldl (fun value digit => 10 * value + (digit.toNat - '0'.toNat)) 0

/-- A number without its sign, and what follows it. -/
def number? (negative : Bool) (cs : List Char) : Option (Json × List Char) := do
  let (whole, cs) ← wholePart? cs
  let (fraction, cs) ← fraction? cs
  let (exponent, cs) ← exponent? cs
  if fraction.isEmpty && exponent.isEmpty then
    let size : Int := decimal whole
    return (.int (if negative then -size else size), cs)
  else
    let sign := if negative then ['-'] else []
    return (.real (String.ofList (sign ++ whole ++ fraction ++ exponent)), cs)

/-! ## Tokens -/

/-- The token at the front of a text that begins with no blank, and what follows it. -/
def token? : List Char → Option (Token × List Char)
  | '\x7b' :: rest => some (.openBrace, rest)
  | '\x7d' :: rest => some (.closeBrace, rest)
  | '[' :: rest => some (.openBracket, rest)
  | ']' :: rest => some (.closeBracket, rest)
  | ',' :: rest => some (.comma, rest)
  | ':' :: rest => some (.colon, rest)
  | '"' :: rest =>
    (textBody rest).map fun (text, after) => (.value (.str (String.ofList text)), after)
  | 'n' :: 'u' :: 'l' :: 'l' :: rest => some (.value .null, rest)
  | 't' :: 'r' :: 'u' :: 'e' :: rest => some (.value (.bool true), rest)
  | 'f' :: 'a' :: 'l' :: 's' :: 'e' :: rest => some (.value (.bool false), rest)
  | '-' :: rest => (number? true rest).map fun (value, after) => (.value value, after)
  | cs => (number? false cs).map fun (value, after) => (.value value, after)

/-- The tokens of a text, if reading takes at most `budget` steps. -/
def tokens? (budget : Nat) (cs : List Char) : Option (List Token) :=
  match budget, cs.dropWhile isBlank with
  | _, [] => some []
  | 0, _ => none
  | budget + 1, cs => do
    let (token, rest) ← token? cs
    let more ← tokens? budget rest
    return token :: more

/-! ## Values -/

mutual

/-- The value at the front of some tokens, and what follows it. -/
def value? : Nat → List Token → Option (Json × List Token)
  | _, .value value :: rest => some (value, rest)
  | _, .openBracket :: .closeBracket :: rest => some (.arr [], rest)
  | _, .openBrace :: .closeBrace :: rest => some (.obj [], rest)
  | budget + 1, .openBracket :: rest => do
    let (items, after) ← items? budget rest
    return (.arr items, after)
  | budget + 1, .openBrace :: rest => do
    let (members, after) ← members? budget rest
    return (.obj members, after)
  | _, _ => none

/-- The items of an array, of which there is at least one, up to its closing bracket. -/
def items? : Nat → List Token → Option (List Json × List Token)
  | 0, _ => none
  | budget + 1, ts => do
    let (item, after) ← value? budget ts
    match after with
    | .comma :: more =>
      let (items, last) ← items? budget more
      return (item :: items, last)
    | .closeBracket :: last => return ([item], last)
    | _ => none

/-- The members of an object, of which there is at least one, up to its closing brace. -/
def members? : Nat → List Token → Option (List (String × Json) × List Token)
  | 0, _ => none
  | budget + 1, ts => do
    match ts with
    | .value (.str name) :: .colon :: after =>
      let (value, after) ← value? budget after
      match after with
      | .comma :: more =>
        let (members, last) ← members? budget more
        return ((name, value) :: members, last)
      | .closeBrace :: last => return ([(name, value)], last)
      | _ => none
    | _ => none

end

/-- The value of a JSON text. -/
def parse? (text : String) : Option Json := do
  let tokens ← tokens? text.length text.toList
  match value? (2 * tokens.length) tokens with
  | some (value, []) => some value
  | _ => none

end Json
end SpacingLint
