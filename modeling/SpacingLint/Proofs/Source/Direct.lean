import SpacingLint.Proofs.Source.Offsets
import SpacingLint.Proofs.Source.Parsing

/-! # Parsing straight into the builder

`Parser` reads shapes and leaves it to its caller to write them out, so on a text that it refuses
the builder is never called.  A parser can also call the builder as it goes: it opens a node
before it knows whether the construct is there, and when it stops, nodes are left open.  `Direct`
is that parser.  Its functions are those of `Parser`, one by one, with the builder passed along in
place of the shapes, and any of its calls to the builder may be refused.

None is.  Whatever has been read so far has been written, and what a parser is about to read
stands where the builder has got to (`Ready`); from there a function of the one parser and its
twin go the same way, to the same error or to the same lexemes with the shapes written
(`Agrees`).  So the two parsers build the same trees and refuse the same texts, and with lexing
by offsets in front (`Tree.parse`) a text is either parsed or refused for what it says.
-/
namespace SpacingLint
namespace Direct

open Builder SpacingLint.Parser Shape

/-! ## The parser -/

/-- Where reading and writing have got to. -/
structure Progress (bound : Nat) where
  /-- The lexemes that are left. -/
  rest : List Lexeme
  /-- The builder they will be written to. -/
  builder : Builder
  /-- How many lexemes are left at most. -/
  rest_lt : rest.length < bound

/-- The same under a bound larger by one. -/
def Progress.relax {bound : Nat} (progress : Progress bound) : Progress (bound + 1) :=
  ⟨progress.rest, progress.builder, Nat.lt_succ_of_lt progress.rest_lt⟩

/-- What was reached after something else. -/
def Progress.andThen {bound after : Nat} (first : Progress bound) (last : Progress after)
    (h : after ≤ first.rest.length + 1 := by
      first
      | exact Nat.le_refl _
      | exact Nat.le_succ _) : Progress bound :=
  ⟨last.rest, last.builder, by
    have := first.rest_lt
    have := last.rest_lt
    omega⟩

/-- Calls the builder. -/
def make (building : Building Unit) (b : Builder) : Except SourceError Builder :=
  match building b with
  | .ok _ after => .ok after
  | .error error _ => .error (.build error)

/-- Closes the node opened last. -/
def Progress.finishNode {bound : Nat} (progress : Progress bound) :
    Except SourceError (Progress bound) := do
  let b ← make Builder.finishNode progress.builder
  return { progress with builder := b }

/-- Reads nothing. -/
def nothing (ls : List Lexeme) (b : Builder) : Progress (ls.length + 1) :=
  ⟨ls, b, (Parser.nothing ls).rest_lt⟩

/-- Reads one lexeme and writes it, with the trivia around it. -/
def bump : (ls : List Lexeme) → Builder → Except SourceError (Progress ls.length)
  | [], _ => .error (unexpected .token [])
  | lexeme :: rest, b => do
    let b ← make (callAll lexeme.calls) b
    return ⟨rest, b, (Parser.nothing rest).rest_lt⟩

/-- Reads and writes one lexeme of a kind. -/
def expect (kind : Kind) (expected : Expectation) (ls : List Lexeme) (b : Builder) :
    Except SourceError (Progress ls.length) :=
  if peek ls = kind then bump ls b else .error (unexpected expected ls)

mutual

/-- An expression. -/
def expression (ls : List Lexeme) (b : Builder) : Except SourceError (Progress ls.length) := do
  let b ← make (startNode .expression) b
  let first ← operand ls b
  let more ← operations first.rest first.builder
  (first.andThen more).finishNode
termination_by 2 * ls.length + 1
decreasing_by
  · omega
  · have := first.rest_lt
    omega

/-- Operators, each with the operand after it, as long as there are any. -/
def operations (ls : List Lexeme) (b : Builder) :
    Except SourceError (Progress (ls.length + 1)) := do
  if peek ls = .operator then
    let operator ← bump ls b
    let next ← operand operator.rest operator.builder
    let more ← operations next.rest next.builder
    return ((operator.andThen next).andThen more).relax
  else
    return nothing ls b
termination_by 2 * ls.length
decreasing_by
  · have := operator.rest_lt
    omega
  · have := operator.rest_lt
    have := next.rest_lt
    omega

/-- A name, a number, or an expression in parentheses. -/
def operand (ls : List Lexeme) (b : Builder) : Except SourceError (Progress ls.length) := do
  match peek ls with
  | .identifier | .numberLiteral => bump ls b
  | .openParen =>
    let opening ← bump ls b
    let inner ← expression opening.rest opening.builder
    let closing ← expect .closeParen .closeParen inner.rest inner.builder
    return (opening.andThen inner).andThen closing
  | _ => .error (unexpected .expression ls)
termination_by 2 * ls.length
decreasing_by
  have := opening.rest_lt
  omega

end

/-- The condition of an `if` statement, if a parenthesis follows. -/
def condition (ls : List Lexeme) (b : Builder) :
    Except SourceError (Progress (ls.length + 1)) := do
  if peek ls = .openParen then
    let opening ← bump ls b
    let inner ← expression opening.rest opening.builder
    let closing ← expect .closeParen .closeParen inner.rest inner.builder
    return ((opening.andThen inner).andThen closing).relax
  else
    return nothing ls b

/-- An expression and a semicolon. -/
def expressionStatement (ls : List Lexeme) (b : Builder) :
    Except SourceError (Progress ls.length) := do
  let b ← make (startNode .expressionStatement) b
  let value ← expression ls b
  let semicolon ← expect .semicolon .semicolon value.rest value.builder
  (value.andThen semicolon).finishNode

mutual

/-- A statement. -/
def statement (ls : List Lexeme) (b : Builder) : Except SourceError (Progress ls.length) :=
  match peek ls with
  | .ifKeyword => ifStatement ls b
  | .openBrace => block ls b
  | _ => expressionStatement ls b
termination_by 3 * ls.length + 1
decreasing_by all_goals omega

/-- An `if` statement. -/
def ifStatement (ls : List Lexeme) (b : Builder) : Except SourceError (Progress ls.length) := do
  let b ← make (startNode .ifStatement) b
  let keyword ← bump ls b
  let test ← condition keyword.rest keyword.builder
  let body ← guarded test.rest test.builder
  let otherwise ← elseClause body.rest body.builder
  (((keyword.andThen test).andThen body).andThen otherwise).finishNode
termination_by 3 * ls.length
decreasing_by
  · have := keyword.rest_lt
    have := test.rest_lt
    omega
  · have := keyword.rest_lt
    have := test.rest_lt
    have := body.rest_lt
    omega

/-- An `else` clause, if the keyword follows. -/
def elseClause (ls : List Lexeme) (b : Builder) :
    Except SourceError (Progress (ls.length + 1)) := do
  if peek ls = .elseKeyword then
    let b ← make (startNode .elseClause) b
    let keyword ← bump ls b
    let body ← guarded keyword.rest keyword.builder
    let clause ← (keyword.andThen body).finishNode
    return clause.relax
  else
    return nothing ls b
termination_by 3 * ls.length
decreasing_by
  have := keyword.rest_lt
  omega

/-- The statement that an `if` or `else` guards, if there is one. -/
def guarded (ls : List Lexeme) (b : Builder) :
    Except SourceError (Progress (ls.length + 1)) := do
  if endsStatement (peek ls) then
    return nothing ls b
  else
    let body ← statement ls b
    return body.relax
termination_by 3 * ls.length + 2
decreasing_by omega

/-- A block. -/
def block (ls : List Lexeme) (b : Builder) : Except SourceError (Progress ls.length) := do
  let b ← make (startNode .block) b
  let opening ← expect .openBrace .openBrace ls b
  let body ← statements true opening.rest opening.builder
  let closing ← expect .closeBrace .closeBrace body.rest body.builder
  ((opening.andThen body).andThen closing).finishNode
termination_by 3 * ls.length
decreasing_by
  have := opening.rest_lt
  omega

/-- Statements up to the end of the file, or to a closing brace if `inBlock` is set. -/
def statements (inBlock : Bool) (ls : List Lexeme) (b : Builder) :
    Except SourceError (Progress (ls.length + 1)) := do
  if peek ls = .endOfFile || (inBlock && peek ls = .closeBrace) then
    return nothing ls b
  else
    let first ← statement ls b
    let more ← statements inBlock first.rest first.builder
    return (first.andThen more).relax
termination_by 3 * ls.length + 2
decreasing_by
  · omega
  · have := first.rest_lt
    omega

end

/-- A unit, and the tree it makes. -/
def unit (ls : List Lexeme) : Except SourceError Tree := do
  let b ← make (startNode .compilationUnit) Builder.empty
  let body ← statements false ls b
  let last ← bump body.rest body.builder
  let whole ← last.finishNode
  whole.builder.finish.mapError .build

/-! ## What is read is written -/

variable {ls : List Lexeme} {b last : Builder} {bound after : Nat}

/-- A builder is ready for some lexemes: a node is open for them, no trivia waits, and they
stand where the text has got to. -/
structure Ready (b : Builder) (ls : List Lexeme) : Prop where
  frames : b.frames ≠ []
  pending : b.pending = []
  placed : Lexeme.Placed b.length ls

/-- What was read of some lexemes has been written. -/
structure Written (ls : List Lexeme) (b : Builder) (parsed : Parsed bound) (last : Builder) :
    Prop where
  /-- The shapes and what is left are the lexemes. -/
  lexemes : allLexemes parsed.shapes ++ parsed.rest = ls
  /-- The shapes have been written. -/
  calls : callAll (allCalls parsed.shapes) b = .ok () last

/-- The outcome of reading shapes and that of writing them at once agree. -/
inductive Agrees (ls : List Lexeme) (b : Builder) :
    Except SourceError (Parsed bound) → Except SourceError (Progress bound) → Prop
  /-- The same error. -/
  | refused (error : SourceError) : Agrees ls b (.error error) (.error error)
  /-- The same lexemes are left, and the shapes have been written. -/
  | read {parsed : Parsed bound} {last : Builder} (h : Written ls b parsed last) :
      Agrees ls b (.ok parsed) (.ok ⟨parsed.rest, last, parsed.rest_lt⟩)

theorem call_of_callAll {c : Call} (h : callAll [c] b = .ok () last) : call c b = .ok () last := by
  cases hc : call c b with
  | ok _ next =>
    rw [callAll_cons hc] at h
    cases h
    rfl
  | error error next => simp [callAll, bind, EStateM.bind, hc] at h

theorem Ready.opened (h : Ready b ls) (kind : Kind) : Ready (b.opened kind) ls :=
  ⟨List.cons_ne_nil _ _, h.pending, h.placed⟩

namespace Written

variable {parsed : Parsed bound}

/-- The builder is ready for what is left. -/
theorem ready (h : Written ls b parsed last) (hready : Ready b ls) : Ready last parsed.rest := by
  obtain ⟨hlexemes, hrest⟩ := Lexeme.placed_append.mp (h.lexemes.symm ▸ hready.placed)
  obtain ⟨other, hother, hwrote⟩ :=
    exists_wroteAll parsed.shapes hready.frames hready.pending hlexemes
  obtain ⟨-, rfl⟩ := EStateM.Result.ok.inj (h.calls.symm.trans hother)
  obtain ⟨_, larger, outer, -, hframes, -⟩ := hwrote.frames
  exact ⟨by rw [hframes]; exact List.cons_ne_nil _ _, hwrote.pending, hwrote.length ▸ hrest⟩

theorem nothing (ls : List Lexeme) (b : Builder) : Written ls b (Parser.nothing ls) b := ⟨rfl, rfl⟩

theorem relax (h : Written ls b parsed last) : Written ls b parsed.relax last := ⟨h.1, h.2⟩

theorem andThen {mid : Builder} (h : Written ls b parsed mid) {more : Parsed after}
    (hmore : Written parsed.rest mid more last) (hle : after ≤ parsed.rest.length + 1) :
    Written ls b (parsed.andThen more hle) last := by
  refine ⟨?_, ?_⟩
  · rw [Parsed.shapes_andThen, Parsed.rest_andThen, allLexemes_append, List.append_assoc,
      hmore.lexemes, h.lexemes]
  · rw [Parsed.shapes_andThen, allCalls_append, callAll_append h.calls, hmore.calls]

end Written

namespace Agrees

/-- Where the first steps agree, the whole agrees if the rest does behind what was read. -/
theorem bind {first : Except SourceError (Parsed bound)}
    {direct : Except SourceError (Progress bound)} (h : Agrees ls b first direct)
    {ls' : List Lexeme} {b' : Builder} {more : Parsed bound → Except SourceError (Parsed after)}
    {moreDirect : Progress bound → Except SourceError (Progress after)}
    (hmore : ∀ parsed mid, Written ls b parsed mid →
      Agrees ls' b' (more parsed) (moreDirect ⟨parsed.rest, mid, parsed.rest_lt⟩)) :
    Agrees ls' b' (first >>= more) (direct >>= moreDirect) := by
  cases h with
  | refused error => exact .refused error
  | read hwritten => exact hmore _ _ hwritten

/-- The node around what was written can be closed. -/
theorem finishNode (hready : Ready b ls) {kind : Kind} {parsed : Parsed bound}
    (h : Written ls (b.opened kind) parsed last) :
    Agrees ls b (.ok (parsed.wrap kind))
      (Progress.finishNode ⟨parsed.rest, last, parsed.rest_lt⟩) := by
  have hplaced := (Lexeme.placed_append.mp (h.lexemes.symm ▸ hready.placed)).1
  obtain ⟨final, hfinal, -⟩ :=
    exists_wroteAll [.node kind parsed.shapes] hready.frames hready.pending (by simpa using hplaced)
  -- The calls that write the node are those that were made so far, and the one that closes it.
  have hclose : callAll [.finish] last = .ok () final := by
    rw [← callAll_append h.calls, ← callAll_cons (call_start kind b), ← hfinal]
    simp [allCalls, Shape.calls]
  have hfinish : Builder.finishNode last = .ok () final := call_of_callAll hclose
  have hwritten : Written ls b (parsed.wrap kind) final := ⟨by simpa using h.lexemes, hfinal⟩
  rw [Progress.finishNode, make, hfinish]
  exact .read hwritten

end Agrees

/-! ## The two parsers agree -/

/-- A node is always opened. -/
theorem make_startNode {α : Type} (kind : Kind) (b : Builder)
    (more : Builder → Except SourceError α) :
    make (startNode kind) b >>= more = more (b.opened kind) := rfl

theorem bump_agrees (hready : Ready b ls) : Agrees ls b (Parser.bump ls) (bump ls b) := by
  cases ls with
  | nil => exact .refused _
  | cons lexeme rest =>
    obtain ⟨hoffset, -⟩ := hready.placed
    obtain ⟨last, hcalls, -⟩ :=
      exists_wrote_leaf lexeme hready.frames hready.pending hoffset
    rw [Parser.bump, bump, make, hcalls]
    have hwritten : Written (lexeme :: rest) b
        (⟨[.leaf lexeme], rest, Nat.lt_succ_self _⟩ : Parsed (lexeme :: rest).length) last :=
      ⟨rfl, by simpa [allCalls, Shape.calls] using hcalls⟩
    exact .read hwritten

theorem expect_agrees (hready : Ready b ls) (kind : Kind) (expected : Expectation) :
    Agrees ls b (Parser.expect kind expected ls) (expect kind expected ls b) := by
  unfold Parser.expect expect
  split
  · exact bump_agrees hready
  · exact .refused _

mutual

theorem expression_agrees {ls : List Lexeme} {b : Builder} (hready : Ready b ls) :
    Agrees ls b (Parser.expression ls) (expression ls b) := by
  rw [Parser.expression, expression, make_startNode]
  refine (operand_agrees (hready.opened .expression)).bind fun first mid hfirst => ?_
  have hrest := first.rest_lt
  refine (operations_agrees (hfirst.ready (hready.opened .expression))).bind
    fun more last hmore => ?_
  exact .finishNode hready (hfirst.andThen hmore _)
termination_by 2 * ls.length + 1

theorem operations_agrees {ls : List Lexeme} {b : Builder} (hready : Ready b ls) :
    Agrees ls b (Parser.operations ls) (operations ls b) := by
  rw [Parser.operations, operations]
  split
  · refine (bump_agrees hready).bind fun operator after hoperator => ?_
    have hoperatorRest := operator.rest_lt
    have hreadyNext := hoperator.ready hready
    refine (operand_agrees hreadyNext).bind fun next mid hnext => ?_
    have hnextRest := next.rest_lt
    refine (operations_agrees (hnext.ready hreadyNext)).bind fun more last hmore => ?_
    exact .read ((hoperator.andThen hnext _).andThen hmore _).relax
  · exact .read (.nothing ls b)
termination_by 2 * ls.length

theorem operand_agrees {ls : List Lexeme} {b : Builder} (hready : Ready b ls) :
    Agrees ls b (Parser.operand ls) (operand ls b) := by
  rw [Parser.operand, operand]
  generalize peek ls = kind
  cases kind
  case identifier => exact bump_agrees hready
  case numberLiteral => exact bump_agrees hready
  case openParen =>
    refine (bump_agrees hready).bind fun opening after hopening => ?_
    have hopeningRest := opening.rest_lt
    have hreadyInner := hopening.ready hready
    refine (expression_agrees hreadyInner).bind fun inner mid hinner => ?_
    refine (expect_agrees (hinner.ready hreadyInner) _ _).bind fun closing last hclosing => ?_
    exact .read ((hopening.andThen hinner _).andThen hclosing _)
  all_goals exact .refused _
termination_by 2 * ls.length

end

theorem condition_agrees (hready : Ready b ls) :
    Agrees ls b (Parser.condition ls) (condition ls b) := by
  unfold Parser.condition condition
  split
  · refine (bump_agrees hready).bind fun opening after hopening => ?_
    have hreadyInner := hopening.ready hready
    refine (expression_agrees hreadyInner).bind fun inner mid hinner => ?_
    refine (expect_agrees (hinner.ready hreadyInner) _ _).bind fun closing last hclosing => ?_
    exact .read ((hopening.andThen hinner _).andThen hclosing _).relax
  · exact .read (.nothing ls b)

theorem expressionStatement_agrees (hready : Ready b ls) :
    Agrees ls b (Parser.expressionStatement ls) (expressionStatement ls b) := by
  unfold Parser.expressionStatement expressionStatement
  rw [make_startNode]
  have hopened := hready.opened .expressionStatement
  refine (expression_agrees hopened).bind fun value mid hvalue => ?_
  refine (expect_agrees (hvalue.ready hopened) _ _).bind fun semicolon last hsemicolon => ?_
  exact .finishNode hready (hvalue.andThen hsemicolon _)

mutual

theorem statement_agrees {ls : List Lexeme} {b : Builder} (hready : Ready b ls) :
    Agrees ls b (Parser.statement ls) (statement ls b) := by
  rw [Parser.statement, statement]
  generalize peek ls = kind
  cases kind
  case ifKeyword => exact ifStatement_agrees hready
  case openBrace => exact block_agrees hready
  all_goals exact expressionStatement_agrees hready
termination_by 3 * ls.length + 1

theorem ifStatement_agrees {ls : List Lexeme} {b : Builder} (hready : Ready b ls) :
    Agrees ls b (Parser.ifStatement ls) (ifStatement ls b) := by
  rw [Parser.ifStatement, ifStatement, make_startNode]
  have hopened := hready.opened .ifStatement
  refine (bump_agrees hopened).bind fun keyword after hkeyword => ?_
  have hkeywordRest := keyword.rest_lt
  have hreadyTest := hkeyword.ready hopened
  refine (condition_agrees hreadyTest).bind fun test behind htest => ?_
  have htestRest := test.rest_lt
  have hreadyBody := htest.ready hreadyTest
  refine (guarded_agrees hreadyBody).bind fun body mid hbody => ?_
  have hbodyRest := body.rest_lt
  refine (elseClause_agrees (hbody.ready hreadyBody)).bind fun otherwise last hotherwise => ?_
  exact .finishNode hready (((hkeyword.andThen htest _).andThen hbody _).andThen hotherwise _)
termination_by 3 * ls.length

theorem elseClause_agrees {ls : List Lexeme} {b : Builder} (hready : Ready b ls) :
    Agrees ls b (Parser.elseClause ls) (elseClause ls b) := by
  rw [Parser.elseClause, elseClause]
  split
  · rw [make_startNode]
    have hopened := hready.opened .elseClause
    refine (bump_agrees hopened).bind fun keyword after hkeyword => ?_
    have hkeywordRest := keyword.rest_lt
    refine (guarded_agrees (hkeyword.ready hopened)).bind fun body last hbody => ?_
    have hclause := Agrees.finishNode hready (hkeyword.andThen hbody (Nat.le_refl _))
    show Agrees ls b (Except.ok ((keyword.andThen body).wrap .elseClause) >>= fun clause =>
      .ok clause.relax) _
    exact hclause.bind fun clause final hfinal => .read hfinal.relax
  · exact .read (.nothing ls b)
termination_by 3 * ls.length

theorem guarded_agrees {ls : List Lexeme} {b : Builder} (hready : Ready b ls) :
    Agrees ls b (Parser.guarded ls) (guarded ls b) := by
  rw [Parser.guarded, guarded]
  split
  · exact .read (.nothing ls b)
  · refine (statement_agrees hready).bind fun body last hbody => ?_
    exact .read hbody.relax
termination_by 3 * ls.length + 2

theorem block_agrees {ls : List Lexeme} {b : Builder} (hready : Ready b ls) :
    Agrees ls b (Parser.block ls) (block ls b) := by
  rw [Parser.block, block, make_startNode]
  have hopened := hready.opened .block
  refine (expect_agrees hopened _ _).bind fun opening after hopening => ?_
  have hopeningRest := opening.rest_lt
  have hreadyBody := hopening.ready hopened
  refine (statements_agrees true hreadyBody).bind fun body mid hbody => ?_
  refine (expect_agrees (hbody.ready hreadyBody) _ _).bind fun closing last hclosing => ?_
  exact .finishNode hready ((hopening.andThen hbody _).andThen hclosing _)
termination_by 3 * ls.length

theorem statements_agrees (inBlock : Bool) {ls : List Lexeme} {b : Builder}
    (hready : Ready b ls) : Agrees ls b (Parser.statements inBlock ls) (statements inBlock ls b) := by
  rw [Parser.statements, statements]
  split
  · exact .read (.nothing ls b)
  · refine (statement_agrees hready).bind fun first mid hfirst => ?_
    have hfirstRest := first.rest_lt
    refine (statements_agrees inBlock (hfirst.ready hready)).bind fun more last hmore => ?_
    exact .read (hfirst.andThen hmore _).relax
termination_by 3 * ls.length + 2

end

/-- The tree that a whole node becomes, once what is in it has been written. -/
theorem ofCalls_node {kind : Kind} {children : List Shape} {inner : Builder}
    (h : callAll (allCalls children) (Builder.empty.opened kind) = .ok () inner) :
    Tree.ofCalls (Shape.node kind children).calls =
      match Builder.finishNode inner with
      | .ok _ whole => whole.finish
      | .error error _ => .error error := by
  rw [Tree.ofCalls, Shape.calls, callAll_cons (call_start kind _), callAll_append h]
  cases hfinish : Builder.finishNode inner with
  | ok _ whole =>
    rw [callAll_cons (show call .finish inner = .ok () whole from hfinish)]
    rfl
  | error error whole =>
    simp [callAll, call, hfinish, bind, EStateM.bind]

/-- **Units are parsed the same into shapes that are written out and straight into the
builder**, where the lexemes stand end to end. -/
theorem unit_eq (hplaced : Lexeme.Placed 0 ls) :
    unit ls = Parser.unit ls >>= fun shape => (Tree.ofCalls shape.calls).mapError .build := by
  have hready : Ready (Builder.empty.opened .compilationUnit) ls :=
    ⟨List.cons_ne_nil _ _, rfl, hplaced⟩
  have hstatements := statements_agrees false hready
  rw [unit, make_startNode, Parser.unit]
  generalize Parser.statements false ls = body at hstatements ⊢
  generalize statements false ls _ = direct at hstatements ⊢
  cases hstatements with
  | refused error => rfl
  | @read body mid hbody =>
    have hlast := bump_agrees (hbody.ready hready)
    show (bump body.rest mid >>= _) = (Parser.bump body.rest >>= _) >>= _
    generalize Parser.bump body.rest = last at hlast ⊢
    generalize bump body.rest mid = direct at hlast ⊢
    cases hlast with
    | refused error => rfl
    | @read last final hlast =>
      have hcalls := (hbody.andThen hlast (Nat.le_succ _)).calls
      rw [Parsed.shapes_andThen] at hcalls
      show (Progress.finishNode ⟨last.rest, final, last.rest_lt⟩ >>= _) = (Tree.ofCalls
        (Shape.node .compilationUnit (body.shapes ++ last.shapes)).calls).mapError .build
      rw [ofCalls_node hcalls, Progress.finishNode, make]
      cases Builder.finishNode final with
      | ok _ whole => rfl
      | error error whole => rfl

end Direct

/-- The tree of a source text, read by offsets and built as it is read. -/
def Tree.parse (text : String) : Except Offsets.Fault Tree := do
  let lexemes ← Offsets.tokenize text.toList 0
  (Direct.unit lexemes).mapError .refused

/-- **Reading and building at once makes the same tree**, or refuses the text for the same
reason. -/
theorem Tree.parse_eq (text : String) : parse text = (ofText text).mapError .refused := by
  rw [parse, Offsets.tokenize_toList, ofText, Shape.ofText]
  cases hlexemes : Lexeme.ofText text with
  | error error => rfl
  | ok lexemes =>
    have hunit := Direct.unit_eq (Lexeme.scanned_of_scan hlexemes).placed
    show (Direct.unit lexemes).mapError Offsets.Fault.refused = _
    rw [hunit]
    show _ = Except.mapError Offsets.Fault.refused (Parser.unit lexemes >>= _)
    cases Parser.unit lexemes with
    | error error => rfl
    | ok shape =>
      show ((ofCalls shape.calls).mapError SourceError.build).mapError Offsets.Fault.refused = _
      dsimp only [bind, Except.bind]
      cases ofCalls shape.calls <;> rfl

end SpacingLint
