import SpacingLint.Proofs.Outcome
import SpacingLint.Proofs.Tree.Layout

/-! # A builder loses nothing

A builder writes one text from left to right, while the tokens of that text are spread
over open nodes and trivia waits for a token that may come in another node.  Read in
the right order the pieces still are the text: first the tokens of the finished root,
then those of the open nodes from the outermost inwards, then the waiting trivia
(`Builder.chunks`).  Every accepted call leaves this list as it is or adds what it
writes at its end, so at any time the pieces stand end to end and spell out the text
(`Builder.Sound`).  When building ends, no node is open and no trivia waits, and the
tree that comes out is well laid (`Tree.wellLaid_of_calls`).
-/
namespace SpacingLint

/-! ## Open nodes -/

namespace Frame

/-- The children so far, in the order in which they stand. -/
def children (frame : Frame) : List Element := frame.newest.reverse

/-- The tokens so far, in the order in which they stand. -/
def tokens (frame : Frame) : List Token := Element.tokens frame.children

@[simp] theorem children_addToken (frame : Frame) (token : Token) :
    (frame.addToken token).children = frame.children ++ [.token token] :=
  List.reverse_cons

@[simp] theorem children_adopt (frame child : Frame) :
    (frame.adopt child).children = frame.children ++ [.node child.close] :=
  List.reverse_cons

@[simp] theorem tokens_addToken (frame : Frame) (token : Token) :
    (frame.addToken token).tokens = frame.tokens ++ [token] := by
  simp [tokens, Element.tokens]

@[simp] theorem tokens_close (frame : Frame) : frame.close.tokens = frame.tokens := rfl

@[simp] theorem tokens_adopt (frame child : Frame) :
    (frame.adopt child).tokens = frame.tokens ++ child.tokens := by
  rw [tokens, children_adopt, Element.tokens_append, Element.tokens, tokens_close, Element.tokens,
    List.append_nil]
  rfl

/-- An open node whose newest child is a token, `last`, with one more piece of trivia behind
it. -/
def trail (frame : Frame) (last : Token) (older : List Element) (trivia : Trivia) : Frame :=
  { frame with
    newest := .token (last.trailedBy trivia) :: older
    extent := frame.extent.map (·.trail trivia.span) }

/-- The tokens of an open node whose newest child is a token. -/
theorem tokens_of_newest {frame : Frame} {last : Token} {older : List Element}
    (h : frame.newest = .token last :: older) :
    frame.tokens = Element.tokens older.reverse ++ [last] := by
  simp [tokens, children, h, Element.tokens]

theorem tokens_trail (frame : Frame) (last : Token) (older : List Element) (trivia : Trivia) :
    (frame.trail last older trivia).tokens =
      Element.tokens older.reverse ++ [last.trailedBy trivia] :=
  tokens_of_newest rfl

/-- **An open node in order**: it was started within the text so far, its extent is that
of its tokens, and the nodes finished below it reach as far as their tokens do. -/
structure Sound (limit : Nat) (frame : Frame) : Prop where
  offset_le : frame.offset ≤ limit
  extent_eq : frame.extent = Extent.ofTokens frame.tokens
  fits : ∀ node ∈ Element.preorders frame.children, node.Fits

namespace Sound

variable {limit : Nat} {frame : Frame}

theorem mono {larger : Nat} (h : frame.Sound limit) (hle : limit ≤ larger) :
    frame.Sound larger :=
  ⟨Nat.le_trans h.offset_le hle, h.extent_eq, h.fits⟩

theorem fresh (kind : Kind) (offset : Nat) : Sound offset ⟨kind, offset, [], none⟩ :=
  ⟨Nat.le_refl _, rfl, nofun⟩

theorem addToken (h : frame.Sound limit) (token : Token) : (frame.addToken token).Sound limit where
  offset_le := h.offset_le
  extent_eq := by
    rw [tokens_addToken, Extent.ofTokens_concat, ← h.extent_eq]
    rfl
  fits := by
    simpa [Element.preorders] using h.fits

/-- A node that is closed reaches as far as its tokens do. -/
theorem fits_close (h : frame.Sound limit) : frame.close.Fits := by
  unfold Node.Fits
  rw [tokens_close, ← h.extent_eq]
  cases hextent : frame.extent with
  | none => exact ⟨frame.offset, by simp [close, hextent, Node.span, Node.fullSpan]⟩
  | some extent => simp [close, hextent, Node.span, Node.fullSpan]

theorem fits_preorder_close (h : frame.Sound limit) : ∀ node ∈ frame.close.preorder, node.Fits := by
  intro node hnode
  rcases List.mem_cons.mp hnode with rfl | hbelow
  · exact h.fits_close
  · exact h.fits node hbelow

theorem adopt {child : Frame} (h : frame.Sound limit) (hchild : child.Sound limit) :
    (frame.adopt child).Sound limit where
  offset_le := h.offset_le
  extent_eq := by
    rw [tokens_adopt, Extent.ofTokens_append, ← h.extent_eq, ← hchild.extent_eq]
    rfl
  fits := by
    intro node hnode
    simp only [children_adopt, Element.preorders_append, Element.preorders, List.append_nil,
      List.mem_append] at hnode
    rcases hnode with hnode | hnode
    · exact h.fits node hnode
    · exact hchild.fits_preorder_close node hnode

theorem trail (h : frame.Sound limit) {last : Token} {older : List Element}
    (hnewest : frame.newest = .token last :: older) {trivia : Trivia}
    (hfull : (last.trailedBy trivia).fullSpan = last.fullSpan.hull trivia.span) :
    (frame.trail last older trivia).Sound limit where
  offset_le := h.offset_le
  extent_eq := by
    rw [tokens_of_newest rfl, Extent.ofTokens_concat, Frame.trail, h.extent_eq,
      tokens_of_newest hnewest, Extent.ofTokens_concat, Option.map_some]
    have htoken : Extent.ofToken (last.trailedBy trivia) =
        (Extent.ofToken last).trail trivia.span := by
      rw [Extent.ofToken, hfull]
      rfl
    rw [htoken]
    cases Extent.ofTokens (Element.tokens older.reverse) <;>
      simp [Extent.join, Extent.trail, Span.hull_assoc]
  fits := by
    simpa [Frame.trail, children, hnewest, Element.preorders] using h.fits

/-- A node without tokens, once closed, stands where it was started. -/
theorem stop_close_le (h : frame.Sound limit) (hnil : frame.tokens = []) :
    frame.close.fullSpan.stop ≤ limit := by
  have hextent : frame.extent = none := by rw [h.extent_eq, hnil, Extent.ofTokens_nil]
  simpa [close, hextent, Node.fullSpan, Span.caret] using h.offset_le

end Sound
end Frame

/-! ## Accepted calls -/

namespace Builder

/-- What a call does to a builder that accepts it. -/
inductive Accepted (b : Builder) : Call → Builder → Prop
  /-- A node is opened. -/
  | start (kind : Kind) :
      Accepted b (.start kind)
        { b with frames := ⟨kind, b.length, [], none⟩ :: b.frames, afterToken := false }
  /-- The node opened last is handed to the one around it. -/
  | adopt {child parent : Frame} {outer : List Frame}
      (hframes : b.frames = child :: parent :: outer) :
      Accepted b .finish { b with frames := parent.adopt child :: outer, afterToken := false }
  /-- The outermost node becomes the root. -/
  | root {frame : Frame} (hframes : b.frames = [frame]) (hroot : b.root = none) :
      Accepted b .finish { b with frames := [], root := some frame.close, afterToken := false }
  /-- Trivia is queued. -/
  | lead (kind : TriviaKind) (text : String) :
      Accepted b (.lead kind text)
        { b with
          text := b.text ++ text
          pending := b.pending ++ [⟨kind, text, b.nextSpan text⟩]
          afterToken := false }
  /-- A token is written; the queued trivia leads it. -/
  | token (kind : Kind) (text : String) {frame : Frame} {outer : List Frame}
      (hframes : b.frames = frame :: outer) :
      Accepted b (.token kind text)
        { b with
          frames := frame.addToken ⟨kind, text, b.nextSpan text, b.pending, []⟩ :: outer
          text := b.text ++ text
          pending := []
          afterToken := true }
  /-- Trivia is written behind the token just written. -/
  | trail (kind : TriviaKind) (text : String) {frame : Frame} {last : Token}
      {older : List Element} {outer : List Frame} (hafter : b.afterToken = true)
      (hframes : b.frames = frame :: outer) (hnewest : frame.newest = .token last :: older) :
      Accepted b (.trail kind text)
        { b with
          frames := frame.trail last older ⟨kind, text, b.nextSpan text⟩ :: outer
          text := b.text ++ text }

/-- Nothing else happens when a call is accepted. -/
theorem accepted_of_call {b after : Builder} {c : Call} (h : call c b = .ok () after) :
    Accepted b c after := by
  cases c with
  | start kind => cases h; exact .start kind
  | finish =>
    simp only [call, finishNode] at h
    split at h
    · cases h
    · next hframes => cases h; exact .adopt hframes
    · next hframes =>
      split at h
      · cases h
      · next hroot => cases h; exact .root hframes hroot
  | lead kind text => cases h; exact .lead kind text
  | token kind text =>
    simp only [call, token] at h
    split at h
    · cases h
    · next hframes => cases h; exact .token kind text hframes
  | trail kind text =>
    simp only [call, trailingTrivia] at h
    split at h
    · next hafter hframes => cases h; exact .trail kind text hafter hframes rfl
    · cases h

/-! ## The pieces in order -/

/-- The texts that a call writes. -/
def Call.written : Call → List String
  | .start _ | .finish => []
  | .lead _ text | .token _ text | .trail _ text => [text]

/-- The tokens written so far: those of the root, those of `lost` roots that were refused,
and those of the open nodes from the outermost inwards. -/
def tokens (lost : List Token) (b : Builder) : List Token :=
  b.root.elim [] Node.tokens ++ lost ++ b.frames.reverse.flatMap Frame.tokens

/-- The texts written so far: those of the tokens, then the trivia that waits. -/
def chunks (lost : List Token) (b : Builder) : List Chunk :=
  Token.allChunks (b.tokens lost) ++ b.pending.map Trivia.chunk

/-- **A builder in order**: what is written so far stands end to end and is the text, and
every node reaches as far as its tokens do. -/
structure Sound (lost : List Token) (b : Builder) : Prop where
  laid : Laid 0 (b.chunks lost)
  text_eq : b.text = Chunk.text (b.chunks lost)
  frames : ∀ frame ∈ b.frames, frame.Sound b.length
  fits : ∀ root, b.root = some root → ∀ node ∈ root.preorder, node.Fits
  stop_le : ∀ root, b.root = some root → root.tokens = [] → root.fullSpan.stop ≤ b.length
  lost_nil : b.root = none → lost = []
  pending_nil : b.afterToken = true → b.pending = []

theorem sound_empty : Sound [] empty :=
  ⟨trivial, rfl, nofun, nofun, nofun, fun _ => rfl, fun _ => rfl⟩

variable {lost : List Token} {b after : Builder} {c : Call}

theorem Accepted.text_eq (hc : Accepted b c after) :
    after.text = b.text ++ String.join c.written := by
  cases hc <;> simp [Call.written]

theorem Accepted.length_le (hc : Accepted b c after) : b.length ≤ after.length := by
  rw [length, length, hc.text_eq, String.utf8ByteSize_append]
  exact Nat.le_add_right _ _

namespace Sound

/-- **Pieces are only added at the end**: an accepted call leaves those before alone. -/
theorem chunks_eq (h : b.Sound lost) (hc : Accepted b c after) :
    after.chunks lost =
      b.chunks lost ++ c.written.map fun text => (text, b.nextSpan text) := by
  cases hc with
  | start kind =>
    simp [chunks, tokens, Frame.tokens, Frame.children, Element.tokens, Call.written]
  | adopt hframes => simp [chunks, tokens, hframes, Call.written]
  | root hframes hroot =>
    simp [chunks, tokens, hframes, hroot, h.lost_nil hroot, Call.written]
  | lead kind text => simp [chunks, tokens, Call.written, Trivia.chunk]
  | token kind text hframes =>
    simp [chunks, tokens, hframes, Call.written, Token.allChunks, Token.chunks]
  | trail kind text hafter hframes hnewest =>
    simp [chunks, tokens, hframes, h.pending_nil hafter, Frame.tokens_of_newest hnewest,
      Frame.tokens_trail, Call.written, Token.allChunks, Trivia.chunk]

theorem length_eq (h : b.Sound lost) : b.length = Chunk.size (b.chunks lost) := by
  rw [length, h.text_eq, Chunk.utf8ByteSize_text]

theorem laid_step (h : b.Sound lost) (hc : Accepted b c after) : Laid 0 (after.chunks lost) := by
  rw [h.chunks_eq hc, laid_append, Nat.zero_add, ← h.length_eq]
  refine ⟨h.laid, ?_⟩
  cases c <;> simp [Call.written, Laid, nextSpan]

theorem text_step (h : b.Sound lost) (hc : Accepted b c after) :
    after.text = Chunk.text (after.chunks lost) := by
  rw [h.chunks_eq hc, Chunk.text_append, ← h.text_eq, hc.text_eq]
  simp [Chunk.text, Function.comp_def]

/-- A token that trivia is added to stands at the end of the text. -/
theorem laid_last (h : b.Sound lost) (hafter : b.afterToken = true) {frame : Frame}
    {outer : List Frame} (hframes : b.frames = frame :: outer) {last : Token}
    {older : List Element} (hnewest : frame.newest = .token last :: older) (text : String) :
    ∃ offset, Laid offset (last.chunks ++ [(text, b.nextSpan text)]) := by
  -- No trivia waits behind the token, so its pieces are the last ones of the builder.
  have hchunks : b.chunks lost = Token.allChunks (b.root.elim [] Node.tokens ++ lost ++
      outer.reverse.flatMap Frame.tokens ++ Element.tokens older.reverse) ++ last.chunks := by
    simp [chunks, tokens, hframes, h.pending_nil hafter, Frame.tokens_of_newest hnewest,
      Token.allChunks]
  have hlaid := h.laid
  have hlength := h.length_eq
  rw [hchunks, laid_append, Nat.zero_add] at hlaid
  rw [hchunks, Chunk.size_append] at hlength
  refine ⟨_, laid_append.mpr ⟨hlaid.2, laid_singleton.mpr ?_⟩⟩
  rw [nextSpan, hlength]

theorem frames_step (h : b.Sound lost) (hc : Accepted b c after) :
    ∀ frame ∈ after.frames, frame.Sound after.length := by
  have hle := hc.length_le
  intro frame hframe
  -- A call changes the innermost open nodes only; to the others just more text is added.
  cases hc with
  | start kind =>
    rcases List.mem_cons.mp hframe with rfl | hframe
    · exact .fresh kind b.length
    · exact h.frames frame hframe
  | @adopt child parent outer hframes =>
    rcases List.mem_cons.mp hframe with rfl | hframe
    · exact (h.frames parent (by simp [hframes])).adopt (h.frames child (by simp [hframes]))
    · exact h.frames frame (by simp [hframes, hframe])
  | root => cases hframe
  | lead kind text => exact (h.frames frame hframe).mono hle
  | @token kind text inner outer hframes =>
    rcases List.mem_cons.mp hframe with rfl | hframe
    · exact ((h.frames inner (by simp [hframes])).addToken _).mono hle
    · exact (h.frames frame (by simp [hframes, hframe])).mono hle
  | @trail kind text inner last older outer hafter hframes hnewest =>
    rcases List.mem_cons.mp hframe with rfl | hframe
    · obtain ⟨offset, hlaid⟩ := h.laid_last hafter hframes hnewest text
      have hfull := Token.fullSpan_trailedBy ⟨kind, text, b.nextSpan text⟩ hlaid
      exact ((h.frames inner (by simp [hframes])).trail hnewest hfull).mono hle
    · exact (h.frames frame (by simp [hframes, hframe])).mono hle

/-- **An accepted call keeps a builder in order.** -/
theorem step (h : b.Sound lost) (hc : Accepted b c after) : after.Sound lost := by
  -- The root, and whether trivia may wait, is touched by one or two kinds of calls each.
  refine ⟨h.laid_step hc, h.text_step hc, h.frames_step hc, ?_, ?_, ?_, ?_⟩
  · cases hc with
    | @root frame hframes _ =>
      rintro _ ⟨⟩
      exact (h.frames frame (by simp [hframes])).fits_preorder_close
    | _ => exact h.fits
  · have hle := hc.length_le
    cases hc with
    | @root frame hframes _ =>
      rintro _ ⟨⟩ hnil
      exact (h.frames frame (by simp [hframes])).stop_close_le hnil
    | _ => exact fun root hroot hnil => Nat.le_trans (h.stop_le root hroot hnil) hle
  · cases hc with
    | root => nofun
    | _ => exact h.lost_nil
  · cases hc with
    | token => exact fun _ => rfl
    | trail => exact h.pending_nil
    | _ => nofun

end Sound

/-- A call accepted first, then all the others. -/
theorem callAll_cons_eq_ok {calls : List Call} (h : callAll (c :: calls) b = .ok () after) :
    ∃ next, Accepted b c next ∧ callAll calls next = .ok () after := by
  cases hc : call c b with
  | ok _ next =>
    refine ⟨next, accepted_of_call hc, ?_⟩
    simpa [callAll, bind, EStateM.bind, hc] using h
  | error error next => simp [callAll, bind, EStateM.bind, hc] at h

/-- **Accepted calls keep a builder in order**, however many there are. -/
theorem sound_of_callAll {calls : List Call} (h : b.Sound lost)
    (hcalls : callAll calls b = .ok () after) : after.Sound lost := by
  induction calls generalizing b with
  | nil => cases hcalls; exact h
  | cons c rest ih =>
    obtain ⟨next, hc, hrest⟩ := callAll_cons_eq_ok hcalls
    exact ih (h.step hc) hrest

/-- What is left when building ends. -/
theorem finish_eq_ok {tree : Tree} (h : b.finish = .ok tree) :
    b.frames = [] ∧ b.pending = [] ∧ b.root = some tree.root ∧ b.text = tree.text := by
  unfold finish at h
  split at h
  · next hframes hpending hroot => cases h; exact ⟨hframes, hpending, hroot, rfl⟩
  all_goals cases h

end Builder

/-! ## The trees that come out -/

namespace Tree

/-- What a builder in order holds when a tree comes out of it. -/
theorem sound_of_calls {calls : List Builder.Call} {tree : Tree}
    (h : ofCalls calls = .ok tree) :
    ∃ b, Builder.Sound [] b ∧ b.finish = .ok tree := by
  unfold ofCalls at h
  split at h
  · next b hcalls => exact ⟨b, Builder.sound_of_callAll Builder.sound_empty hcalls, h⟩
  · cases h

/-- **A tree built without a refusal is well laid.** -/
theorem wellLaid_of_calls {calls : List Builder.Call} {tree : Tree}
    (h : ofCalls calls = .ok tree) : tree.WellLaid := by
  obtain ⟨b, hsound, hfinish⟩ := sound_of_calls h
  obtain ⟨hframes, hpending, hroot, htext⟩ := Builder.finish_eq_ok hfinish
  have hchunks : b.chunks [] = Token.allChunks tree.tokens := by
    simp [Builder.chunks, Builder.tokens, hframes, hpending, hroot, tokens]
  refine ⟨?_, hchunks ▸ hsound.laid, ?_⟩
  · rw [← htext, hsound.text_eq, hchunks, Token.text_allChunks]
  · rw [nodes_eq]
    exact hsound.fits _ hroot

/-- The root reaches over the whole text, also when it contains no token: then no text was
written at all. -/
theorem fullSpan_root_of_calls {calls : List Builder.Call} {tree : Tree}
    (h : ofCalls calls = .ok tree) : tree.root.fullSpan = tree.span := by
  have hlaid := wellLaid_of_calls h
  by_cases hnil : tree.tokens = []
  · obtain ⟨b, hsound, hfinish⟩ := sound_of_calls h
    obtain ⟨_, _, hroot, htext⟩ := Builder.finish_eq_ok hfinish
    have hlength : tree.length = 0 := by
      rw [hlaid.length_eq, hnil]
      rfl
    have hstop := hsound.stop_le _ hroot hnil
    rw [Builder.length, htext, show tree.text.utf8ByteSize = 0 from hlength] at hstop
    have hle := tree.root.fullSpan.start_le_stop
    refine Span.ext ?_ ?_
    · show _ = 0
      omega
    · show _ = tree.length
      omega
  · exact hlaid.fullSpan_root hnil

/-- **Full fidelity of building.**  When no call is refused and a tree comes out, the
tokens with their trivia spell out its text, each text stands under its span, and the
full spans cover the text from its start to its end, as the root does. -/
theorem ofCalls_faithful {calls : List Builder.Call} {tree : Tree}
    (h : ofCalls calls = .ok tree) :
    String.join (tree.root.descendantTokens.map Token.fullText) = tree.text ∧
      (∀ token ∈ tree.root.descendantTokens, tree.slice? token.span = some token.text ∧
        ∀ trivia ∈ token.leading ++ token.trailing,
          tree.slice? trivia.span = some trivia.text) ∧
      Span.Tiling 0 (tree.root.descendantTokens.map Token.fullSpan) tree.length ∧
      tree.root.fullSpan = tree.span := by
  have hlaid := wellLaid_of_calls h
  rw [tree.root.descendantTokens_eq]
  refine ⟨hlaid.text_eq.symm, ?_, hlaid.tiling, fullSpan_root_of_calls h⟩
  intro token htoken
  exact ⟨hlaid.laidBefore.slice?_token htoken,
    fun _ htrivia => hlaid.laidBefore.slice?_trivia htoken htrivia⟩

/-- Trivia that is queued before any node is open, an empty token and a node without
tokens. -/
theorem ofCalls_faithful_queued :
    ∃ tree, ofCalls [.lead .whitespace " ", .start .compilationUnit, .start .block, .finish,
        .token .identifier "é", .trail .whitespace "", .trail .singleLineComment "//",
        .token .endOfFile "", .finish] = .ok tree ∧
      tree.text = " é//" ∧
      String.join (tree.root.descendantTokens.map Token.fullText) = tree.text ∧
      Span.Tiling 0 (tree.root.descendantTokens.map Token.fullSpan) tree.length ∧
      tree.root.fullSpan = tree.span := by
  have heval : (ofCalls [.lead .whitespace " ", .start .compilationUnit, .start .block, .finish,
      .token .identifier "é", .trail .whitespace "", .trail .singleLineComment "//",
      .token .endOfFile "", .finish]).toOption.map Tree.text = some " é//" := by
    decide +kernel
  obtain ⟨tree, htree, htext⟩ := Option.map_eq_some_iff.mp heval
  obtain ⟨hjoin, -, htiling, hroot⟩ := ofCalls_faithful (eq_ok_of_toOption htree)
  exact ⟨tree, eq_ok_of_toOption htree, htext, hjoin, htiling, hroot⟩

end Tree
end SpacingLint
