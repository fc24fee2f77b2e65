import SpacingLint.Yaml.Layout

/-! # Reading tokens of YAML

The part of YAML read here has mappings and sequences, written in blocks or between
braces and brackets, and scalars, written plainly or between quotes; comments, and
marks between documents.  Everything else (anchors, aliases, tags, block scalars,
directives) cannot be read.

Some characters mean something only in certain places.  A colon separates a key from
its value if a gap follows, and between braces also before a comma or a closing brace,
and right behind a quoted scalar or a closing brace; before an opening brace it needs
one of these.  A tab alone does not separate a colon from a word.

What cannot be read ends the tokens of a text early: the last of them is the mark of
the end only if the whole text could be read.  A token that may turn out to be the
first of a key is held back until this is settled, and what cannot be read before then
takes it along.
-/
namespace SpacingLint
namespace Yaml
namespace Layout

/-! ## Getting to the next token -/

/-- The layout behind blanks, line breaks and comments, if that takes at most `budget`
steps.  A line break allows a key again, except between braces.  A tab does not indent
a line of a block. -/
def skipGaps? : Nat → Layout → Option Layout
  | 0, layout => some layout
  | budget + 1, layout =>
    match layout.cursor.rest with
    | '\t' :: _ =>
      if !layout.outer.isEmpty && layout.lineStart &&
          decide (layout.cursor.column < layout.indent) then do
        let (_, behind) ← layout.cursor.skipGap?
        if behind.atLineEnd then skipGaps? budget { layout with cursor := behind } else none
      else skipGaps? budget { layout with cursor := layout.cursor.advance 1 }
    | ' ' :: _ => skipGaps? budget { layout with cursor := layout.cursor.advance 1 }
    | '\n' :: _ =>
      skipGaps? budget
        { layout with
          cursor := layout.cursor.nextLine
          lineStart := true
          keyAllowed := layout.keyAllowed || !layout.inFlow }
    | '#' :: _ => skipGaps? budget { layout with cursor := layout.cursor.lineEnd }
    | _ => some layout

/-- The layout behind all blanks, line breaks and comments. -/
def skipAllGaps? (layout : Layout) : Option Layout :=
  layout.skipGaps? (layout.cursor.rest.length + 1)

/-- The layout behind the blanks and the comment after a mark. -/
def skipGap? (layout : Layout) : Option Layout := do
  let (_, cursor) ← layout.cursor.skipGap?
  return { layout with cursor }

/-! ## Tokens one by one -/

/-- Behind the end of the text, where nothing may be open. -/
def endOfText? (layout : Layout) : Option Layout := do
  if layout.inFlow then none
  else
    let layout ← (layout.unroll (-1)).dropKey?
    return layout.push .endOfText

/-- Behind a mark between documents, where nothing may be open. -/
def marker? (token : Token) (layout : Layout) : Option Layout := do
  if layout.inFlow then none
  else
    let layout ← (layout.unroll (-1)).dropKey?
    let layout := (layout.forbidKey.advance 3).push token
    if token = .documentEnd then
      let layout ← layout.skipGap?
      if layout.cursor.atLineEnd then some layout else none
    else some layout

/-- Behind an opening brace or bracket. -/
def opening? (token : Token) (layout : Layout) : Option Layout := do
  let layout := layout.saveKey.rollOne
  let layout ← (layout.openFlow.allowKey.advance 1).skipGap?
  return layout.push token

/-- Behind a closing brace or bracket. -/
def closing? (token : Token) (layout : Layout) : Option Layout := do
  if layout.inFlow then
    let layout ← layout.dropKey?
    let layout ← (layout.closeFlow.forbidKey.advance 1).skipGap?
    let layout := if layout.inFlow then layout.allowAdjacent else layout
    return layout.push token
  else none

/-- Behind a comma. -/
def comma? (layout : Layout) : Option Layout := do
  let layout ← layout.dropKey?
  let layout ← (layout.allowKey.advance 1).skipGap?
  return layout.push .comma

/-- Behind the hyphen before an entry of a sequence. -/
def entry? (layout : Layout) : Option Layout := do
  if layout.inFlow || !layout.keyAllowed then none
  else
    let column := layout.cursor.column
    let layout := (layout.advance 1).roll column layout.tokens.size .sequenceStart
    let layout ← layout.skipGap?
    let layout :=
      if layout.cursor.atLineEnd || atFlowMark layout.cursor.rest then layout.rollOne else layout
    let layout ← layout.dropKey?
    return layout.allowKey.push .entry

/-- Behind the question mark before a key. -/
def key? (layout : Layout) : Option Layout := do
  if !layout.inFlow && !layout.keyAllowed then none
  else
    let layout := layout.roll layout.cursor.column layout.tokens.size .mappingStart
    let layout ← layout.dropKey?
    let layout := if layout.inFlow then layout.forbidKey else layout.allowKey
    let layout := layout.advance 1
    if layout.cursor.rest.head?.any fun c => c = ' ' || c = '\n' then some (layout.push .key)
    else none

/-- Behind the blanks after a colon; a tab alone does not separate it from a word. -/
def skipColonGap? (layout : Layout) : Option Layout :=
  match layout.cursor.rest with
  | '\t' :: _ => do
    let (blanks, cursor) ← layout.cursor.skipGap?
    if blanks.all (· = '\t') && cursor.rest.head?.any isWordPart then none
    else some { layout with cursor }
  | _ => some layout

/-- Behind the colon between a key and its value.  If a key may have begun, it did. -/
def value? (layout : Layout) : Option Layout := do
  let column := layout.cursor.column
  let layout ← (layout.advance 1).skipColonGap?
  match layout.pending with
  | some start =>
    let layout := layout.insert start.number .key
    let layout := (layout.roll start.column start.number .mappingStart).rollOne
    return ({ layout with pending := none }).forbidKey.push .value
  | none =>
    if layout.inFlow then return layout.forbidKey.push .value
    else if layout.keyAllowed then
      return ((layout.roll column layout.tokens.size .mappingStart).rollOne.allowKey).push .value
    else none

/-- Behind a quoted scalar. -/
def quoted? (layout : Layout) : Option Layout := do
  let line := layout.cursor.line
  let layout := layout.saveKey.forbidKey
  let (text, cursor) ← readQuoted layout.indent layout.cursor
  let (_, cursor) ← cursor.skipGap?
  if mayFollowQuote layout.inFlow (line = cursor.line) cursor.rest then
    let layout ← ({ layout with cursor, lineStart := false }).skipAllGaps?
    return layout.allowAdjacent.push (.scalar true text)
  else none

/-- Behind a plain scalar and the blanks and line breaks after it. -/
def plain? (layout : Layout) : Option Layout := do
  let layout := layout.saveKey.forbidKey.unrollLoose
  let least := layout.indent + 1
  if layout.inFlow && decide (layout.cursor.column < least) then none
  else
    let (folded, cursor) ←
      readPlain layout.inFlow least (layout.cursor.rest.length + 1) false {} layout.cursor
    let layout := { layout with cursor, lineStart := folded.isCrossing }
    let layout := if folded.isCrossing then layout.allowKey else layout
    return layout.push (.scalar false folded.trimmed)

/-- Whether a colon at the cursor stands before the value of a key. -/
def atValue (layout : Layout) (rest : List Char) : Bool :=
  atGap rest || (layout.inFlow && (atFlowMark rest || layout.isAdjacent))

/-- Whether a colon at the cursor stands before a brace or bracket from which it must be
separated. -/
def clings (layout : Layout) (rest : List Char) : Bool :=
  layout.inFlow && !layout.isAdjacent && rest.head?.any fun c => c = '[' || c = '\x7b'

/-- Behind the token at the cursor. -/
def token? (layout : Layout) : Option Layout :=
  match layout.cursor.rest with
  | [] => layout.endOfText?
  | c :: rest =>
    if layout.cursor.column = 0 && beginsWithMarker (c :: rest) then
      layout.marker? (if c = '-' then .documentStart else .documentEnd)
    else if layout.cursor.column < layout.indent &&
        !(layout.inFlow && [',', ']', '\x7d'].contains c) then none
    else
      match c with
      | '\x7b' => layout.opening? .openBrace
      | '[' => layout.opening? .openBracket
      | '\x7d' => layout.closing? .closeBrace
      | ']' => layout.closing? .closeBracket
      | ',' => layout.comma?
      | '\'' | '"' => layout.quoted?
      | '-' => if atGap rest then layout.entry? else layout.plain?
      | '?' => if atGap rest then layout.key? else layout.plain?
      | ':' =>
        if layout.atValue rest then if layout.clings rest then none else layout.value?
        else layout.plain?
      | '|' | '>' => if layout.inFlow then layout.plain? else none
      | '&' | '*' | '!' | '%' | '@' | '\x60' => none
      | _ => layout.plain?

/-! ## All tokens -/

/-- Behind the next token and the gap before it. -/
def next? (layout : Layout) : Option Layout := do
  let layout ← layout.skipAllGaps?
  let layout ← layout.settleKey?
  (layout.unroll layout.cursor.column).token?

/-- The tokens that can be read with at most `budget` steps. -/
def readAll : Nat → Layout → List Token
  | 0, layout => layout.settled
  | budget + 1, layout =>
    match layout.next? with
    | none => layout.settled
    | some behind =>
      if behind.tokens.back? = some .endOfText then behind.tokens.toList
      else
        match behind.settleKey? with
        | none => layout.settled
        | some behind => readAll budget behind.settle

end Layout

/-- The tokens of a text. -/
def tokensOf (text : String) : List Token :=
  let cs := normalize text.toList
  (Layout.start cs).readAll (cs.length + 2)

end Yaml
end SpacingLint
