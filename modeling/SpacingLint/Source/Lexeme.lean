import SpacingLint.Source.Error
import SpacingLint.Text.Measure

/-! # Lexemes

A source text falls into lexemes, each a token with the trivia around it.  A token
owns, as trailing trivia, everything up to and including the first line break after
it; all other trivia leads the next token.  The last lexeme is the end of the file,
which owns what no token trails.

Trivia comes in four kinds: a run of blanks and tabs, a line break (a line feed,
alone or after a carriage return), a comment from two slashes to the end of its
line, and a comment between delimiters, which ends at the first closing one.  A
carriage return elsewhere begins nothing and is refused.
-/
namespace SpacingLint

/-- A piece of trivia that has no place yet. -/
structure Piece where
  /-- What it is. -/
  kind : TriviaKind
  /-- Its text. -/
  text : String
deriving DecidableEq

/-- A token of a source text with the trivia it owns. -/
structure Lexeme where
  /-- What it is. -/
  kind : Kind
  /-- Its own text. -/
  text : String
  /-- The byte offset of its own text. -/
  offset : Nat
  /-- The trivia before it. -/
  leading : List Piece
  /-- The trivia after it. -/
  trailing : List Piece
deriving DecidableEq

namespace Lexeme

/-! ## Trivia -/

/-- Blanks and tabs. -/
def isBlank (c : Char) : Bool := c = ' ' || c = '\t'

/-- The characters at which a comment to the end of the line stops. -/
def isLineEnd (c : Char) : Bool := c = '\n' || c = '\r'

/-- A text cut after its first closing delimiter of a comment. -/
def cutComment : List Char → Option (List Char × List Char)
  | [] => none
  | '*' :: '/' :: rest => some (['*', '/'], rest)
  | c :: rest => (cutComment rest).map fun cut => (c :: cut.1, cut.2)

/-- What stands at the front of a text, as far as trivia is concerned. -/
inductive Front where
  /-- No trivia. -/
  | other
  /-- A comment without an end. -/
  | unterminated
  /-- A piece of trivia, and the text after it. -/
  | trivia (kind : TriviaKind) (text rest : List Char)

/-- Looks for a piece of trivia at the front of a text.  Blanks and comments are as
long as possible. -/
def front : List Char → Front
  | '\r' :: '\n' :: rest => .trivia .endOfLine ['\r', '\n'] rest
  | '\n' :: rest => .trivia .endOfLine ['\n'] rest
  | '/' :: '/' :: rest =>
    .trivia .singleLineComment ('/' :: '/' :: rest.takeWhile (!isLineEnd ·))
      (rest.dropWhile (!isLineEnd ·))
  | '/' :: '*' :: rest =>
    match cutComment rest with
    | some (body, after) => .trivia .multiLineComment ('/' :: '*' :: body) after
    | none => .unterminated
  | c :: rest =>
    if isBlank c then
      .trivia .whitespace (c :: rest.takeWhile isBlank) (rest.dropWhile isBlank)
    else .other
  | [] => .other

theorem append_of_cutComment {cs body after : List Char} (h : cutComment cs = some (body, after)) :
    body ++ after = cs := by
  fun_induction cutComment cs generalizing body with
  | case1 => cases h
  | case2 rest => cases h; rfl
  | case3 c rest _ ih =>
    obtain ⟨cut, hcut, heq⟩ := Option.map_eq_some_iff.mp h
    cases heq
    exact congrArg (c :: ·) (ih hcut)

/-- **Nothing is lost**: a piece of trivia and the text after it make up the text. -/
theorem append_of_front {cs text rest : List Char} {kind : TriviaKind}
    (h : front cs = .trivia kind text rest) : text ++ rest = cs := by
  unfold front at h
  split at h
  · cases h; rfl
  · cases h; rfl
  · cases h; simp [List.takeWhile_append_dropWhile]
  · split at h
    · next hcut => cases h; simp [append_of_cutComment hcut]
    · cases h
  · split at h
    · cases h; simp [List.takeWhile_append_dropWhile]
    · cases h
  · cases h

/-- A piece of trivia is never empty. -/
theorem ne_nil_of_front {cs text rest : List Char} {kind : TriviaKind}
    (h : front cs = .trivia kind text rest) : text ≠ [] := by
  unfold front at h
  repeat' split at h
  all_goals (cases h; try simp)

theorem length_lt_of_front {cs text rest : List Char} {kind : TriviaKind}
    (h : front cs = .trivia kind text rest) : rest.length < cs.length := by
  have hpos := List.length_pos_iff.mpr (ne_nil_of_front h)
  rw [← append_of_front h, List.length_append]
  omega

/-- The trivia at the front of a text that stands at `offset`, and the text after it.
If `ofLine` is set, the run ends with the first line break. -/
def run (ofLine : Bool) (offset : Nat) (cs : List Char) :
    Except SourceError (List Piece × List Char) :=
  match _h : front cs with
  | .other => .ok ([], cs)
  | .unterminated => .error (.unterminatedComment offset)
  | .trivia kind text rest =>
    let piece : Piece := ⟨kind, String.ofList text⟩
    if ofLine && kind = .endOfLine then .ok ([piece], rest)
    else
      match run ofLine (offset + Text.bytes text) rest with
      | .ok (pieces, after) => .ok (piece :: pieces, after)
      | .error error => .error error
termination_by cs.length
decreasing_by exact length_lt_of_front _h

theorem length_le_of_run {ofLine : Bool} {offset : Nat} {cs rest : List Char}
    {pieces : List Piece} (h : run ofLine offset cs = .ok (pieces, rest)) :
    rest.length ≤ cs.length := by
  fun_induction run ofLine offset cs generalizing pieces rest with
  | case1 => cases h; exact Nat.le_refl _
  | case2 => cases h
  | case3 =>
    rename_i hfront _ _
    cases h
    exact Nat.le_of_lt (length_lt_of_front hfront)
  | case4 =>
    rename_i hfront _ _ _ _ hrun ih
    cases h
    exact Nat.le_trans (ih hrun) (Nat.le_of_lt (length_lt_of_front hfront))
  | case5 => cases h

/-! ## Tokens -/

/-- The tokens of one character that stand for themselves. -/
def punctuation? : Char → Option Kind
  | '(' => some .openParen
  | ')' => some .closeParen
  | '\x7b' => some .openBrace
  | '\x7d' => some .closeBrace
  | ';' => some .semicolon
  | _ => none

/-- The characters a word begins with: letters of the basic alphabet and the underscore. -/
def isWordStart (c : Char) : Bool := c.isAlpha || c = '_'

/-- The characters a word goes on with. -/
def isWordPart (c : Char) : Bool := c.isAlphanum || c = '_'

/-- What a word is: a keyword or a name. -/
def wordKind (word : List Char) : Kind :=
  if word = ['i', 'f'] then .ifKeyword
  else if word = ['e', 'l', 's', 'e'] then .elseKeyword
  else .identifier

/-- The characters operators are made of. -/
def isOperator (c : Char) : Bool :=
  ['+', '-', '*', '/', '%', '<', '>', '=', '!', '&', '|'].contains c

/-- The operators of two characters. -/
def isOperatorPair (c d : Char) : Bool :=
  [('=', '='), ('!', '='), ('<', '='), ('>', '='), ('&', '&'), ('|', '|')].contains (c, d)

/-- The token that begins with the character `c`: its kind, its text after `c`, and
the text after it; `none` if no token begins so.  Words, numbers and operators are as
long as possible. -/
def word (c : Char) (cs : List Char) : Option (Kind × List Char × List Char) :=
  match punctuation? c with
  | some kind => some (kind, [], cs)
  | none =>
    if isWordStart c then
      let more := cs.takeWhile isWordPart
      some (wordKind (c :: more), more, cs.dropWhile isWordPart)
    else if c.isDigit then
      some (.numberLiteral, cs.takeWhile Char.isDigit, cs.dropWhile Char.isDigit)
    else if isOperator c then
      match cs with
      | d :: rest =>
        if isOperatorPair c d then some (.operator, [d], rest) else some (.operator, [], cs)
      | [] => some (.operator, [], [])
    else none

/-- Nothing is lost: a token and the text after it make up the text. -/
theorem append_of_word {c : Char} {cs more rest : List Char} {kind : Kind}
    (h : word c cs = some (kind, more, rest)) : more ++ rest = cs := by
  unfold word at h
  repeat' split at h
  all_goals (cases h; try simp [List.takeWhile_append_dropWhile])

theorem length_le_of_word {c : Char} {cs more rest : List Char} {kind : Kind}
    (h : word c cs = some (kind, more, rest)) : rest.length ≤ cs.length := by
  rw [← append_of_word h, List.length_append]
  omega

/-! ## Texts -/

/-- The number of bytes of some pieces of trivia. -/
def size : List Piece → Nat
  | [] => 0
  | piece :: rest => piece.text.utf8ByteSize + size rest

/-- The lexemes of a text that stands at `offset`. -/
def scan (offset : Nat) (cs : List Char) : Except SourceError (List Lexeme) :=
  match _lead : run false offset cs with
  | .error error => .error error
  | .ok (leading, body) =>
    let start := offset + size leading
    match body with
    | [] => .ok [⟨.endOfFile, "", start, leading, []⟩]
    | c :: after =>
      match _word : word c after with
      | none => .error (.unexpectedCharacter start c)
      | some (kind, more, behind) =>
        let text := String.ofList (c :: more)
        let stop := start + text.utf8ByteSize
        match _trail : run true stop behind with
        | .error error => .error error
        | .ok (trailing, rest) =>
          match scan (stop + size trailing) rest with
          | .error error => .error error
          | .ok lexemes => .ok (⟨kind, text, start, leading, trailing⟩ :: lexemes)
termination_by cs.length
decreasing_by
  have hbody := length_le_of_run _lead
  have hbehind := length_le_of_word _word
  have hrest := length_le_of_run _trail
  rw [List.length_cons] at hbody
  omega

/-- The lexemes of a source text. -/
def ofText (text : String) : Except SourceError (List Lexeme) := scan 0 text.toList

end Lexeme
end SpacingLint
