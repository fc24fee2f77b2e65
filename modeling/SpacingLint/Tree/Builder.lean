import SpacingLint.Tree.Basic

/-! # Building a tree from a sequence of calls

A builder is fed the pieces of a text from left to right.  `startNode` opens a node
inside the one open last, `finishNode` closes it and hands it to its parent, or
makes it the root when it has none; `leadingTrivia` queues trivia for the next
token, `token` takes the queue, and `trailingTrivia` adds to the token just
written.  Every text is appended to the text of the tree when it is written, so
offsets need not be given: they are the lengths of the text before and after.

A call that breaks the protocol is refused with an error, and the builder can be
used further.  A node that contains a token reaches from its first token to its
last; one without is zero-width, where the text ended when it was started.
-/
namespace SpacingLint

/-- Why a call, or the end of building, is refused. -/
inductive BuildError where
  /-- A node is finished while none is open. -/
  | unmatchedFinish
  /-- A token is written while no node is open. -/
  | tokenWithoutParent
  /-- Trailing trivia is written, but not right after a token. -/
  | trailingWithoutToken
  /-- A second root is finished. -/
  | multipleRoots
  /-- Building ends while `count` nodes are open. -/
  | unfinishedNodes (count : Nat)
  /-- Building ends before any root was finished. -/
  | missingRoot
  /-- Building ends while `count` entries of trivia wait for a token. -/
  | danglingTrivia (count : Nat)
deriving DecidableEq

namespace BuildError

/-- What is said about the error. -/
def message : BuildError → String
  | unmatchedFinish => "finish_node() called without a matching start_node()"
  | tokenWithoutParent =>
    "token() called without a parent node. Call start_node() before adding tokens"
  | trailingWithoutToken => "trailing_trivia() must directly follow the token it attaches to"
  | multipleRoots => "a second root node was finished; a tree has exactly one root"
  | unfinishedNodes count => s!"builder finished with {count} unfinished node(s) on the stack"
  | missingRoot => "builder finished without a root node"
  | danglingTrivia count => s!"{count} leading trivia entries were never attached to a token"

end BuildError

/-- How far the tokens of an open node reach so far. -/
structure Extent where
  /-- From the first token to the last. -/
  span : Span
  /-- The same with their trivia. -/
  fullSpan : Span
deriving DecidableEq

namespace Extent

/-- The extent of a token. -/
def ofToken (token : Token) : Extent := ⟨token.span, token.fullSpan⟩

/-- The extent of what came before, if anything, and what follows. -/
def join (before : Option Extent) (next : Extent) : Extent :=
  match before with
  | none => next
  | some extent => ⟨extent.span.hull next.span, extent.fullSpan.hull next.fullSpan⟩

/-- The extent once trivia at `span` trails its last token. -/
def trail (extent : Extent) (span : Span) : Extent :=
  { extent with fullSpan := extent.fullSpan.hull span }

end Extent

/-- A node that is open. -/
structure Frame where
  /-- Its kind. -/
  kind : Kind
  /-- How long the text was when it was started. -/
  offset : Nat
  /-- Its children so far, the newest first. -/
  newest : List Element
  /-- How far its tokens reach; `none` before the first. -/
  extent : Option Extent

namespace Frame

/-- The node that an open one becomes. -/
def close (frame : Frame) : Node :=
  let extent := frame.extent.getD ⟨Span.caret frame.offset, Span.caret frame.offset⟩
  .mk frame.kind extent.span extent.fullSpan frame.newest.reverse

/-- Takes a token in. -/
def addToken (frame : Frame) (token : Token) : Frame :=
  { frame with
    newest := .token token :: frame.newest
    extent := some (Extent.join frame.extent (Extent.ofToken token)) }

/-- Takes a finished child in. -/
def adopt (frame child : Frame) : Frame :=
  { frame with
    newest := .node child.close :: frame.newest
    extent := child.extent.elim frame.extent fun extent => some (Extent.join frame.extent extent) }

end Frame

/-- A tree under construction. -/
structure Builder where
  /-- The open nodes, the one opened last first. -/
  frames : List Frame := []
  /-- Everything written so far. -/
  text : String := ""
  /-- The trivia that waits for a token, in the order in which it was written. -/
  pending : List Trivia := []
  /-- The root, once it is finished. -/
  root : Option Node := none
  /-- Whether the last call wrote a token or trivia behind one. -/
  afterToken : Bool := false

/-- A step of building: it may be refused, and the builder goes on either way. -/
abbrev Building := EStateM BuildError Builder

namespace Builder

/-- A builder that was not used yet. -/
def empty : Builder := {}

/-- The length of what is written so far. -/
def length (builder : Builder) : Nat := builder.text.utf8ByteSize

/-- Where the next text will stand. -/
def nextSpan (builder : Builder) (text : String) : Span :=
  Span.ofSize builder.length text.utf8ByteSize

/-- Opens a node. -/
def startNode (kind : Kind) : Building Unit := fun builder =>
  .ok () { builder with
    frames := ⟨kind, builder.length, [], none⟩ :: builder.frames
    afterToken := false }

/-- Closes the node opened last.  One without a parent becomes the root, unless there
is a root already: then it is lost. -/
def finishNode : Building Unit := fun builder =>
  match builder.frames with
  | [] => .error .unmatchedFinish { builder with afterToken := false }
  | frame :: parent :: outer =>
    .ok () { builder with frames := parent.adopt frame :: outer, afterToken := false }
  | [frame] =>
    match builder.root with
    | some _ => .error .multipleRoots { builder with frames := [], afterToken := false }
    | none => .ok () { builder with frames := [], root := some frame.close, afterToken := false }

/-- Queues trivia for the next token. -/
def leadingTrivia (kind : TriviaKind) (text : String) : Building Unit := fun builder =>
  .ok () { builder with
    text := builder.text ++ text
    pending := builder.pending ++ [⟨kind, text, builder.nextSpan text⟩]
    afterToken := false }

/-- Writes a token into the node opened last; the queued trivia leads it. -/
def token (kind : Kind) (text : String) : Building Unit := fun builder =>
  match builder.frames with
  | [] => .error .tokenWithoutParent builder
  | frame :: outer =>
    let written : Token := ⟨kind, text, builder.nextSpan text, builder.pending, []⟩
    .ok () { builder with
      frames := frame.addToken written :: outer
      text := builder.text ++ text
      pending := []
      afterToken := true }

/-- Writes trivia behind the token just written. -/
def trailingTrivia (kind : TriviaKind) (text : String) : Building Unit := fun builder =>
  match builder.afterToken, builder.frames with
  | true, ⟨nodeKind, offset, .token last :: older, extent⟩ :: outer =>
    let span := builder.nextSpan text
    let last := { last with trailing := last.trailing ++ [⟨kind, text, span⟩] }
    .ok () { builder with
      frames := ⟨nodeKind, offset, .token last :: older, extent.map (·.trail span)⟩ :: outer
      text := builder.text ++ text }
  | _, _ => .error .trailingWithoutToken builder

/-- The tree, if every node is closed, no trivia waits, and there is a root. -/
def finish (builder : Builder) : Except BuildError Tree :=
  match builder.frames, builder.pending, builder.root with
  | [], [], some root => .ok ⟨builder.text, root⟩
  | [], [], none => .error .missingRoot
  | [], pending@(_ :: _), _ => .error (.danglingTrivia pending.length)
  | frames@(_ :: _), _, _ => .error (.unfinishedNodes frames.length)

/-! ## Calls as data -/

/-- One call of the protocol. -/
inductive Call where
  | start (kind : Kind)
  | finish
  | lead (kind : TriviaKind) (text : String)
  | token (kind : Kind) (text : String)
  | trail (kind : TriviaKind) (text : String)
deriving DecidableEq

/-- Makes one call. -/
def call : Call → Building Unit
  | .start kind => startNode kind
  | .finish => finishNode
  | .lead kind text => leadingTrivia kind text
  | .token kind text => token kind text
  | .trail kind text => trailingTrivia kind text

/-- Makes calls up to the first that is refused. -/
def callAll : List Call → Building Unit
  | [] => pure ()
  | next :: rest => do
    call next
    callAll rest

/-- Makes every call, going on after a refusal, and says which were refused and why. -/
def replies (builder : Builder) : List Call → List (Option BuildError) × Builder
  | [] => ([], builder)
  | next :: rest =>
    let (reply, after) :=
      match call next builder with
      | .ok _ after => (none, after)
      | .error error after => (some error, after)
    let (later, last) := replies after rest
    (reply :: later, last)

end Builder

/-- The tree that a sequence of calls builds, or the first error on the way. -/
def Tree.ofCalls (calls : List Builder.Call) : Except BuildError Tree :=
  match Builder.callAll calls Builder.empty with
  | .ok _ builder => builder.finish
  | .error error _ => .error error

end SpacingLint
