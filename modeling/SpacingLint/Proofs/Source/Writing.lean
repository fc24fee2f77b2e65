import SpacingLint.Proofs.Source.Lexing
import SpacingLint.Proofs.Tree.Fidelity
import SpacingLint.Source.Shape

/-! # Writing a shape out and reading it back

The calls that write a shape are never refused, and the node they make has that shape
again (`Tree.exists_ofCalls`): a token is read back as the lexeme it was made of, whose
offset is the start of its span (`Token.lexeme`), and a node as its kind over its
children (`Node.shape`).  Offsets come out right because the lexemes stand end to end:
when a lexeme is written, the text is as long as the lexemes before it.

The other direction is uniqueness.  A well laid tree in which every node has a token is
determined by its shape (`Tree.WellLaid.eq_of_shape_eq`): the spans of its tokens follow
from where their texts stand, and those of its nodes from its tokens.
-/
namespace SpacingLint

/-! ## Reading shapes back -/

/-- A piece of trivia without its place. -/
def Trivia.piece (trivia : Trivia) : Piece := ⟨trivia.kind, trivia.text⟩

/-- The lexeme that a token is made of. -/
def Token.lexeme (token : Token) : Lexeme :=
  ⟨token.kind, token.text, token.span.start, token.leading.map Trivia.piece,
    token.trailing.map Trivia.piece⟩

mutual

/-- What a node is made of, without spans. -/
def Node.shape : Node → Shape
  | .mk kind _ _ children => .node kind (Element.shapes children)

/-- What some children are made of. -/
def Element.shapes : List Element → List Shape
  | [] => []
  | .token t :: rest => .leaf t.lexeme :: Element.shapes rest
  | .node n :: rest => n.shape :: Element.shapes rest

end

@[simp] theorem Element.shapes_append (children more : List Element) :
    shapes (children ++ more) = shapes children ++ shapes more := by
  induction children with
  | nil => rfl
  | cons child rest ih => cases child <;> simp [shapes, ih]

theorem Frame.shape_close (frame : Frame) :
    frame.close.shape = .node frame.kind (Element.shapes frame.children) := rfl

mutual

/-- The lexemes of a node's shape are those of its tokens. -/
theorem Node.lexemes_shape : (node : Node) → node.shape.lexemes = node.tokens.map Token.lexeme
  | .mk _ _ _ children => by
    rw [Node.shape, Shape.lexemes, Node.tokens]
    exact Element.allLexemes_shapes children

theorem Element.allLexemes_shapes : (children : List Element) →
    Shape.allLexemes (Element.shapes children) = (Element.tokens children).map Token.lexeme
  | [] => rfl
  | .token t :: rest => by
    rw [Element.shapes, Shape.allLexemes, Element.allLexemes_shapes rest]
    rfl
  | .node n :: rest => by
    rw [Element.shapes, Shape.allLexemes, Element.allLexemes_shapes rest, n.lexemes_shape,
      Element.tokens, List.map_append]

end

/-! ## Writing lexemes -/

namespace Builder

theorem length_append (b : Builder) (text : String) :
    (b.text ++ text).utf8ByteSize = b.length + text.utf8ByteSize :=
  String.utf8ByteSize_append

theorem callAll_cons {c : Call} {calls : List Call} {b mid : Builder}
    (h : call c b = .ok () mid) : callAll (c :: calls) b = callAll calls mid := by
  simp only [callAll, bind, EStateM.bind, h]

theorem callAll_append {calls more : List Call} {b mid : Builder}
    (h : callAll calls b = .ok () mid) : callAll (calls ++ more) b = callAll more mid := by
  induction calls generalizing b with
  | nil => cases h; rfl
  | cons c rest ih =>
    cases hc : call c b with
    | ok _ next =>
      rw [callAll_cons hc] at h
      rw [List.cons_append, callAll_cons hc, ih h]
    | error error next => simp [callAll, bind, EStateM.bind, hc] at h

/-- Trivia is queued behind the trivia that waits already. -/
theorem exists_callAll_leads (pieces : List Piece) (b : Builder) :
    ∃ after, callAll (pieces.map fun piece => .lead piece.kind piece.text) b = .ok () after ∧
      after.frames = b.frames ∧ after.root = b.root ∧
      after.pending.map Trivia.piece = b.pending.map Trivia.piece ++ pieces ∧
      after.length = b.length + Lexeme.size pieces := by
  induction pieces generalizing b with
  | nil => exact ⟨b, rfl, rfl, rfl, by simp, rfl⟩
  | cons piece rest ih =>
    obtain ⟨after, hcalls, hframes, hroot, hpending, hlength⟩ := ih
      { b with
        text := b.text ++ piece.text
        pending := b.pending ++ [⟨piece.kind, piece.text, b.nextSpan piece.text⟩]
        afterToken := false }
    refine ⟨after, hcalls, hframes, hroot, ?_, ?_⟩
    · rw [hpending, List.map_append, List.append_assoc]
      rfl
    · rw [hlength, length, length_append, Nat.add_assoc]
      rfl

/-- Trivia is added to the token written last. -/
theorem exists_callAll_trails (pieces : List Piece) {b : Builder} (hafter : b.afterToken = true)
    {frame : Frame} {outer : List Frame} (hframes : b.frames = frame :: outer) {last : Token}
    {older : List Element} (hnewest : frame.newest = .token last :: older) :
    ∃ after larger token,
      callAll (pieces.map fun piece => .trail piece.kind piece.text) b = .ok () after ∧
      after.frames = larger :: outer ∧ larger.kind = frame.kind ∧
      larger.newest = .token token :: older ∧
      token.lexeme = { last.lexeme with trailing := last.lexeme.trailing ++ pieces } ∧
      after.pending = b.pending ∧ after.root = b.root ∧
      after.length = b.length + Lexeme.size pieces := by
  induction pieces generalizing b frame last with
  | nil =>
    exact ⟨b, frame, last, rfl, hframes, rfl, hnewest, by simp, rfl, rfl, rfl⟩
  | cons piece rest ih =>
    have hcall : call (.trail piece.kind piece.text) b = .ok ()
        { b with
          frames := frame.trail last older ⟨piece.kind, piece.text, b.nextSpan piece.text⟩ :: outer
          text := b.text ++ piece.text } := by
      obtain ⟨kind, offset, newest, extent⟩ := frame
      obtain rfl := hnewest
      simp only [call, trailingTrivia, hafter, hframes]
      rfl
    obtain ⟨after, larger, token, hcalls, hframes, hkind, hnewest, hlexeme, hpending, hroot,
      hlength⟩ := ih (b := { b with
        frames := frame.trail last older ⟨piece.kind, piece.text, b.nextSpan piece.text⟩ :: outer
        text := b.text ++ piece.text }) hafter rfl rfl
    refine ⟨after, larger, token, ?_, hframes, hkind, hnewest, ?_, hpending, hroot, ?_⟩
    · rw [List.map_cons, callAll_cons hcall, hcalls]
    · rw [hlexeme]
      simp [Token.lexeme, Token.trailedBy, Trivia.piece]
    · rw [hlength, length, length_append, Nat.add_assoc]
      rfl

/-! ## Writing shapes -/

/-- The builder with one more node open. -/
def opened (kind : Kind) (b : Builder) : Builder :=
  { b with frames := ⟨kind, b.length, [], none⟩ :: b.frames, afterToken := false }

theorem call_start (kind : Kind) (b : Builder) : call (.start kind) b = .ok () (b.opened kind) :=
  rfl

/-- Some shapes were written into the node opened last; nothing else changed. -/
structure Wrote (b after : Builder) (shapes : List Shape) : Prop where
  /-- The node opened last has the shapes as its newest children. -/
  frames : ∃ frame larger outer, b.frames = frame :: outer ∧ after.frames = larger :: outer ∧
    larger.kind = frame.kind ∧
    Element.shapes larger.children = Element.shapes frame.children ++ shapes
  /-- No trivia waits. -/
  pending : after.pending = []
  /-- The root is what it was. -/
  root : after.root = b.root
  /-- The text has grown by that of the lexemes. -/
  length : after.length = b.length + Lexeme.widths (Shape.allLexemes shapes)

theorem Wrote.trans {b mid after : Builder} {shapes more : List Shape} (h : b.Wrote mid shapes)
    (hmore : mid.Wrote after more) : b.Wrote after (shapes ++ more) := by
  obtain ⟨frame, larger, outer, hb, hmid, hkind, hshapes⟩ := h.frames
  obtain ⟨frame', largest, outer', hmid', hafter, hkind', hshapes'⟩ := hmore.frames
  obtain ⟨rfl, rfl⟩ := List.cons.inj (hmid.symm.trans hmid')
  refine ⟨⟨frame, largest, outer, hb, hafter, hkind'.trans hkind, ?_⟩, hmore.pending,
    hmore.root.trans h.root, ?_⟩
  · rw [hshapes', hshapes, List.append_assoc]
  · rw [hmore.length, h.length, Shape.allLexemes_append, Lexeme.widths_append, Nat.add_assoc]

/-- **A lexeme is written** where it stands, and can be read back. -/
theorem exists_wrote_leaf (lexeme : Lexeme) {b : Builder} (hne : b.frames ≠ [])
    (hpending : b.pending = []) (hoffset : lexeme.offset = b.length + Lexeme.size lexeme.leading) :
    ∃ after, callAll lexeme.calls b = .ok () after ∧ b.Wrote after [.leaf lexeme] := by
  obtain ⟨frame, outer, hframes⟩ := List.exists_cons_of_ne_nil hne
  obtain ⟨led, hled, hledFrames, hledRoot, hledPending, hledLength⟩ :=
    exists_callAll_leads lexeme.leading b
  rw [hframes] at hledFrames
  rw [hpending, List.map_nil, List.nil_append] at hledPending
  -- The token itself takes the trivia that was queued.
  have htoken : call (.token lexeme.kind lexeme.text) led = .ok ()
      { led with
        frames := frame.addToken ⟨lexeme.kind, lexeme.text, led.nextSpan lexeme.text,
          led.pending, []⟩ :: outer
        text := led.text ++ lexeme.text
        pending := []
        afterToken := true } := by
    simp only [call, token, hledFrames]
  obtain ⟨after, larger, last, htrails, hframesAfter, hkind, hnewest, hlexeme, hpendingAfter,
    hroot, hlength⟩ := exists_callAll_trails lexeme.trailing (b := { led with
      frames := frame.addToken ⟨lexeme.kind, lexeme.text, led.nextSpan lexeme.text,
        led.pending, []⟩ :: outer
      text := led.text ++ lexeme.text
      pending := []
      afterToken := true }) rfl rfl rfl
  have hread : last.lexeme = lexeme := by
    rw [hlexeme]
    simp [Token.lexeme, hledPending, nextSpan, hledLength, ← hoffset]
  refine ⟨after, ?_, ⟨⟨frame, larger, outer, hframes, hframesAfter, hkind, ?_⟩, hpendingAfter,
    hroot.trans hledRoot, ?_⟩⟩
  · rw [Lexeme.calls, callAll_append hled, callAll_cons htoken, htrails]
  · rw [Frame.children, hnewest, List.reverse_cons, Element.shapes_append, Element.shapes, hread]
    rfl
  · rw [hlength, length, length_append, hledLength]
    simp [Shape.allLexemes, Shape.lexemes, Lexeme.widths, Lexeme.width, Nat.add_assoc]

mutual

/-- **A shape is written** without a refusal, and can be read back. -/
theorem exists_wrote : (shape : Shape) → {b : Builder} → b.frames ≠ [] → b.pending = [] →
    Lexeme.Placed b.length shape.lexemes →
    ∃ after, callAll shape.calls b = .ok () after ∧ b.Wrote after [shape]
  | .leaf lexeme, _, hne, hpending, hplaced => exists_wrote_leaf lexeme hne hpending hplaced.1
  | .node kind children, b, hne, hpending, hplaced => by
    obtain ⟨parent, outer, hframes⟩ := List.exists_cons_of_ne_nil hne
    -- The children are written into a node of their own, which is handed on afterwards.
    obtain ⟨inner, hchildren, hinner⟩ := exists_wroteAll children
      (b := b.opened kind) (List.cons_ne_nil _ _) hpending hplaced
    obtain ⟨fresh, filled, around, hfresh, hfilled, hkind, hshapes⟩ := hinner.frames
    obtain ⟨rfl, rfl⟩ := List.cons.inj hfresh
    rw [hframes] at hfilled
    have hfinish : call .finish inner = .ok ()
        { inner with frames := parent.adopt filled :: outer, afterToken := false } := by
      simp only [call, finishNode, hfilled]
    refine ⟨{ inner with frames := parent.adopt filled :: outer, afterToken := false }, ?_,
      ⟨parent, parent.adopt filled, outer, hframes, rfl, rfl, ?_⟩, hinner.pending,
      hinner.root, ?_⟩
    · rw [Shape.calls, callAll_cons (call_start kind b), callAll_append hchildren,
        callAll_cons hfinish]
      rfl
    · rw [Frame.children_adopt, Element.shapes_append, Element.shapes, Frame.shape_close, hkind,
        hshapes]
      rfl
    · show inner.length = _
      rw [hinner.length, Shape.allLexemes, Shape.lexemes, Shape.allLexemes, List.append_nil]
      rfl

theorem exists_wroteAll : (shapes : List Shape) → {b : Builder} → b.frames ≠ [] →
    b.pending = [] → Lexeme.Placed b.length (Shape.allLexemes shapes) →
    ∃ after, callAll (Shape.allCalls shapes) b = .ok () after ∧ b.Wrote after shapes
  | [], b, hne, hpending, _ => by
    obtain ⟨frame, outer, hframes⟩ := List.exists_cons_of_ne_nil hne
    exact ⟨b, rfl, ⟨frame, frame, outer, hframes, hframes, rfl, by simp⟩, hpending, rfl, rfl⟩
  | shape :: rest, b, hne, hpending, hplaced => by
    obtain ⟨hshape, hrest⟩ := Lexeme.placed_append.mp hplaced
    obtain ⟨mid, hcalls, hwrote⟩ := exists_wrote shape hne hpending hshape
    obtain ⟨_, larger, outer, _, hmid, _⟩ := hwrote.frames
    have hlength : mid.length = b.length + Lexeme.widths shape.lexemes := by
      rw [hwrote.length]
      simp [Shape.allLexemes]
    obtain ⟨after, hmore, hwroteMore⟩ := exists_wroteAll rest (b := mid)
      (by rw [hmid]; exact List.cons_ne_nil _ _) hwrote.pending (hlength ▸ hrest)
    refine ⟨after, ?_, hwrote.trans hwroteMore⟩
    rw [Shape.allCalls, callAll_append hcalls, hmore]

end

end Builder

namespace Tree

/-- **A whole shape becomes a tree** that has this shape, and no call is refused. -/
theorem exists_ofCalls {kind : Kind} {children : List Shape}
    (hplaced : Lexeme.Placed 0 (Shape.allLexemes children)) :
    ∃ tree, ofCalls (Shape.node kind children).calls = .ok tree ∧
      tree.root.shape = .node kind children := by
  obtain ⟨inner, hchildren, hinner⟩ := Builder.exists_wroteAll children
    (b := Builder.empty.opened kind) (List.cons_ne_nil _ _) rfl hplaced
  obtain ⟨fresh, filled, around, hfresh, hfilled, hkind, hshapes⟩ := hinner.frames
  obtain ⟨rfl, rfl⟩ := List.cons.inj hfresh
  have hroot : inner.root = none := hinner.root
  have hfinish : Builder.call .finish inner = .ok ()
      { inner with frames := [], root := some filled.close, afterToken := false } := by
    simp only [Builder.call, Builder.finishNode, hfilled, hroot]
    rfl
  refine ⟨⟨inner.text, filled.close⟩, ?_, ?_⟩
  · rw [ofCalls, Shape.calls,
      Builder.callAll_cons (Builder.call_start kind _),
      Builder.callAll_append hchildren, Builder.callAll_cons hfinish]
    simp only [Builder.callAll, pure, EStateM.pure, Builder.finish, hinner.pending]
  · rw [Frame.shape_close, hkind, hshapes]
    rfl

end Tree

/-! ## Trees of one shape -/

/-- Trivia laid end to end is determined by what it is. -/
theorem Trivia.eq_of_piece_eq {offset : Nat} {trivia others : List Trivia}
    (h : Laid offset (trivia.map Trivia.chunk)) (hothers : Laid offset (others.map Trivia.chunk))
    (heq : trivia.map Trivia.piece = others.map Trivia.piece) : trivia = others := by
  induction trivia generalizing others offset with
  | nil => exact (List.map_eq_nil_iff.mp heq.symm).symm
  | cons one rest ih =>
    cases others with
    | nil => cases heq
    | cons other more =>
      obtain ⟨hpiece, hrest⟩ := List.cons.inj heq
      obtain ⟨kind, text, span⟩ := one
      obtain ⟨kind', text', span'⟩ := other
      obtain ⟨rfl, rfl⟩ := Piece.mk.inj hpiece
      obtain ⟨hspan, hlaid⟩ := h
      obtain ⟨hspan', hlaid'⟩ := hothers
      obtain rfl : span = span' := hspan.trans hspan'.symm
      rw [ih hlaid hlaid' hrest]

/-- A token that stands at an offset is determined by its lexeme. -/
theorem Token.eq_of_lexeme_eq {offset : Nat} {token other : Token} (h : Laid offset token.chunks)
    (hother : Laid offset other.chunks) (heq : token.lexeme = other.lexeme) : token = other := by
  obtain ⟨kind, text, span, leading, trailing⟩ := token
  obtain ⟨kind', text', span', leading', trailing'⟩ := other
  obtain ⟨rfl, rfl, -, hleading, htrailing⟩ := Lexeme.mk.inj heq
  obtain ⟨hlead, hspan, htrail⟩ := laid_append.mp h
  obtain ⟨hlead', hspan', htrail'⟩ := laid_append.mp hother
  obtain rfl := Trivia.eq_of_piece_eq hlead hlead' hleading
  obtain rfl := Trivia.eq_of_piece_eq htrail htrail' htrailing
  obtain rfl : span = span' := hspan.trans hspan'.symm
  rfl

mutual

/-- Every node of a shape has a lexeme. -/
def Shape.Leafy : Shape → Prop
  | .leaf _ => True
  | .node _ children => Shape.allLexemes children ≠ [] ∧ Shape.AllLeafy children

/-- Every node of some shapes has a lexeme. -/
def Shape.AllLeafy : List Shape → Prop
  | [] => True
  | shape :: rest => shape.Leafy ∧ Shape.AllLeafy rest

end

/-- Two nodes that reach as far as the same tokens have the same spans. -/
theorem Node.Fits.spans_eq {node other : Node} (h : node.Fits) (hother : other.Fits)
    (htokens : node.tokens = other.tokens) (hne : node.tokens ≠ []) :
    node.span = other.span ∧ node.fullSpan = other.fullSpan := by
  unfold Fits at h hother
  rw [← htokens] at hother
  cases hextent : Extent.ofTokens node.tokens with
  | none => exact absurd (Extent.ofTokens_eq_none_iff.mp hextent) hne
  | some extent =>
    simp only [hextent] at h hother
    obtain ⟨hspan, hfull⟩ := h
    obtain ⟨hspan', hfull'⟩ := hother
    exact ⟨hspan.trans hspan'.symm, hfull.trans hfull'.symm⟩

mutual

/-- A node whose tokens stand end to end is determined by its shape. -/
theorem Node.eq_of_shape_eq : (node other : Node) → {offset : Nat} →
    Laid offset (Token.allChunks node.tokens) → Laid offset (Token.allChunks other.tokens) →
    (∀ below ∈ node.preorder, below.Fits) → (∀ below ∈ other.preorder, below.Fits) →
    node.shape.Leafy → node.shape = other.shape → node = other
  | .mk kind span full children, .mk kind' span' full' children', _, h, hother, hfits, hfits',
      hleafy, heq => by
    obtain ⟨rfl, hshapes⟩ := Shape.node.inj heq
    obtain rfl := Element.eq_of_shapes_eq children children' h hother
      (fun below hbelow => hfits below (List.mem_cons_of_mem _ hbelow))
      (fun below hbelow => hfits' below (List.mem_cons_of_mem _ hbelow)) hleafy.2 hshapes
    -- Without a token below it a node could stand at any offset.
    have hne : Element.tokens children ≠ [] := by
      intro hnil
      exact hleafy.1 (by rw [Element.allLexemes_shapes, hnil]; rfl)
    obtain ⟨rfl, rfl⟩ : span = span' ∧ full = full' :=
      (hfits _ (List.mem_cons_self ..)).spans_eq (hfits' _ (List.mem_cons_self ..)) rfl hne
    rfl

theorem Element.eq_of_shapes_eq : (children others : List Element) → {offset : Nat} →
    Laid offset (Token.allChunks (Element.tokens children)) →
    Laid offset (Token.allChunks (Element.tokens others)) →
    (∀ below ∈ Element.preorders children, below.Fits) →
    (∀ below ∈ Element.preorders others, below.Fits) →
    Shape.AllLeafy (Element.shapes children) →
    Element.shapes children = Element.shapes others → children = others
  | [], [], _, _, _, _, _, _, _ => rfl
  | [], .token _ :: _, _, _, _, _, _, _, heq => by cases heq
  | [], .node _ :: _, _, _, _, _, _, _, heq => by cases heq
  | .token _ :: _, [], _, _, _, _, _, _, heq => by cases heq
  | .node _ :: _, [], _, _, _, _, _, _, heq => by cases heq
  | .token _ :: _, .node (.mk ..) :: _, _, _, _, _, _, _, heq => by cases heq
  | .node (.mk ..) :: _, .token _ :: _, _, _, _, _, _, _, heq => by cases heq
  | .token token :: rest, .token other :: more, _, h, hother, hfits, hfits', hleafy, heq => by
    obtain ⟨hleaf, hshapes⟩ := List.cons.inj heq
    obtain ⟨htoken, hrest⟩ := laid_append.mp h
    obtain ⟨htoken', hrest'⟩ := laid_append.mp hother
    obtain rfl := Token.eq_of_lexeme_eq htoken htoken' (Shape.leaf.inj hleaf)
    rw [Element.eq_of_shapes_eq rest more hrest hrest' hfits hfits' hleafy.2 hshapes]
  | .node node :: rest, .node other :: more, _, h, hother, hfits, hfits', hleafy, heq => by
    obtain ⟨hshape, hshapes⟩ := List.cons.inj heq
    simp only [Element.tokens, Token.allChunks, List.flatMap_append] at h hother
    obtain ⟨hnode, hrest⟩ := laid_append.mp h
    obtain ⟨hnode', hrest'⟩ := laid_append.mp hother
    obtain rfl := Node.eq_of_shape_eq node other hnode hnode'
      (fun below hbelow => hfits below (List.mem_append_left _ hbelow))
      (fun below hbelow => hfits' below (List.mem_append_left _ hbelow)) hleafy.1 hshape
    rw [Element.eq_of_shapes_eq rest more hrest hrest'
      (fun below hbelow => hfits below (List.mem_append_right _ hbelow))
      (fun below hbelow => hfits' below (List.mem_append_right _ hbelow)) hleafy.2 hshapes]

end

/-- A well laid tree is determined by its root, since its text is. -/
theorem Tree.WellLaid.eq_of_root_eq {tree other : Tree} (h : tree.WellLaid)
    (hother : other.WellLaid) (hroot : tree.root = other.root) : tree = other := by
  have htext : tree.text = other.text := by
    rw [h.text_eq, hother.text_eq, tokens, tokens, hroot]
  obtain ⟨text, root⟩ := tree
  obtain ⟨text', root'⟩ := other
  obtain rfl : root = root' := hroot
  obtain rfl : text = text' := htext
  rfl

/-- **A well laid tree is determined by its shape** when every node has a token. -/
theorem Tree.WellLaid.eq_of_shape_eq {tree other : Tree} (h : tree.WellLaid)
    (hother : other.WellLaid) (hleafy : tree.root.shape.Leafy)
    (heq : tree.root.shape = other.root.shape) : tree = other :=
  h.eq_of_root_eq hother (Node.eq_of_shape_eq tree.root other.root h.laid hother.laid
    (nodes_eq tree ▸ h.fits) (nodes_eq other ▸ hother.fits) hleafy heq)

end SpacingLint
