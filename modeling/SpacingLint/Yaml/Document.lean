import SpacingLint.Yaml.Reader

/-! # YAML documents

A document is a scalar or a mapping from texts to documents.  A scalar that is not
there is the empty plain scalar, which stands for nothing, as do a tilde and the word
null.  Nothing is not a key, no key occurs twice in a mapping, and a sequence is not a
document here.

A text holds at most one document.  What follows the end of a document is not read any
further if it cannot begin another one: a document is followed by another only behind
a mark between documents.

Documents are read off tokens with a budget of steps that is larger than any text of
that many tokens can use up.
-/
namespace SpacingLint

/-- A YAML document. -/
inductive Yaml where
  | scalar (quoted : Bool) (text : String)
  | mapping (entries : List (String × Yaml))

namespace Yaml

/-- The scalar that is not there. -/
def nothing : Yaml := scalar false ""

/-- A scalar that stands for nothing. -/
def isNull : Yaml → Bool
  | scalar false text => ["", "~", "null"].contains (text.map Char.toLower)
  | _ => false

/-- The text of a document that can be a key. -/
def keyText? (document : Yaml) : Option String :=
  match document with
  | scalar _ text => if document.isNull then none else some text
  | mapping _ => none

/-- The entries with one more in front; `none` if its key is taken. -/
def addEntry (key : String) (value : Yaml) (entries : List (String × Yaml)) :
    Option (List (String × Yaml)) :=
  if entries.any (·.1 = key) then none else some ((key, value) :: entries)

/-! ## Documents -/

mutual

/-- The document at the front of some tokens, and what follows it.  `inBlock` says
whether it may be a mapping whose keys stand in one column. -/
def document? (inBlock : Bool) : Nat → List Token → Option (Yaml × List Token)
  | _, .scalar quoted text :: rest => some (scalar quoted text, rest)
  | budget + 1, .openBrace :: rest => do
    let (entries, rest) ←
      match rest with
      | .closeBrace :: rest => some ([], rest)
      | _ => flowEntries? budget rest
    return (mapping entries, rest)
  | budget + 1, .mappingStart :: rest =>
    if inBlock then do
      let (entries, rest) ← blockEntries? budget rest
      return (mapping entries, rest)
    else none
  | _, _ => none

/-- The entries of a mapping between braces, of which there is one at least, up to the
closing brace, and what follows it. -/
def flowEntries? : Nat → List Token → Option (List (String × Yaml) × List Token)
  | 0, _ => none
  | budget + 1, tokens => do
    let (key, rest) ←
      match tokens with
      | .key :: rest => document? false budget rest
      | _ => document? false budget tokens
    let key ← key.keyText?
    let (value, rest) ←
      match tokens, rest with
      | .key :: _, .value :: rest =>
        match rest with
        | .comma :: _ | .closeBrace :: _ => some (nothing, rest)
        | _ => document? false budget rest
      | _, _ => some (nothing, rest)
    match rest with
    | .closeBrace :: rest | .comma :: .closeBrace :: rest => return ([(key, value)], rest)
    | .comma :: rest =>
      let (entries, rest) ← flowEntries? budget rest
      let entries ← addEntry key value entries
      return (entries, rest)
    | _ => none

/-- The entries of a mapping whose keys stand in one column, up to the mark of its end,
and what follows it. -/
def blockEntries? : Nat → List Token → Option (List (String × Yaml) × List Token)
  | 0, _ => none
  | _, .blockEnd :: rest => some ([], rest)
  | budget + 1, .key :: rest => do
    let (key, rest) ← document? true budget rest
    let key ← key.keyText?
    let (value, rest) ←
      match rest with
      | .value :: rest =>
        match rest with
        | .key :: _ | .value :: _ | .blockEnd :: _ => some (nothing, rest)
        | _ => document? true budget rest
      | _ => some (nothing, rest)
    let (entries, rest) ← blockEntries? budget rest
    let entries ← addEntry key value entries
    return (entries, rest)
  | _, _ => none

end

/-! ## Texts -/

/-- The tokens behind the marks that end documents at the front of some. -/
def skipEnds (tokens : List Token) : List Token := tokens.dropWhile (· = .documentEnd)

/-- Whether no document begins behind the mark before one.  A document that is not there
begins, too, where nothing else begins before the next mark. -/
def beginsNone : List Token → Bool
  | [] => true
  | token :: _ =>
    !(token.beginsDocument || [.documentStart, .documentEnd, .endOfText].contains token)

/-- Whether what follows a document is its end and no other document begins after it.
Without a mark at the end of the document, another one needs a mark before it. -/
def endsDocument : List Token → Bool
  | [] => false
  | .documentStart :: rest => beginsNone rest
  | .documentEnd :: rest =>
    match skipEnds rest with
    | .documentStart :: rest => beginsNone rest
    | token :: _ => !token.beginsDocument
    | [] => true
  | _ => true

/-- The document of some tokens. -/
def ofTokens? (tokens : List Token) : Option Yaml := do
  let tokens :=
    match skipEnds tokens with
    | .documentStart :: rest => rest
    | tokens => tokens
  let (document, rest) ←
    match tokens with
    | .documentStart :: _ | .documentEnd :: _ | .endOfText :: _ => some (nothing, tokens)
    | _ => document? true (tokens.length + 1) tokens
  if endsDocument rest then some document else none

/-- The document of a text. -/
def parse? (text : String) : Option Yaml := ofTokens? (tokensOf text)

end Yaml
end SpacingLint
