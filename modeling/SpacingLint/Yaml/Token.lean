/-! # Tokens of YAML

Scalars, marks and the bounds of mappings and sequences.  Where the text has no mark
for a key, or for the beginning or the end of a block, the tokens have one, so no
token needs to know where it stands.
-/
namespace SpacingLint
namespace Yaml

/-- What stands in a text. -/
inductive Token where
  /-- A scalar, and whether it is quoted. -/
  | scalar (quoted : Bool) (text : String)
  | openBrace
  | closeBrace
  | openBracket
  | closeBracket
  | comma
  /-- A key follows. -/
  | key
  /-- The value of the key before follows. -/
  | value
  /-- A mapping begins whose keys stand in one column. -/
  | mappingStart
  /-- A sequence begins whose entries stand in one column. -/
  | sequenceStart
  /-- An entry of a sequence follows. -/
  | entry
  /-- The mapping or sequence in a column ends. -/
  | blockEnd
  /-- The mark before a document. -/
  | documentStart
  /-- The mark after a document. -/
  | documentEnd
  | endOfText
deriving DecidableEq

namespace Token

/-- Whether a document that is not empty begins with the token. -/
def beginsDocument : Token → Bool
  | scalar _ _ | openBrace | openBracket | mappingStart | sequenceStart => true
  | _ => false

end Token
end Yaml
end SpacingLint
