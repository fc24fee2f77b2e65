import SpacingLint.Proofs.Tree.Preorder
import SpacingLint.Tree.Builder

/-! # Texts laid end to end

A tree keeps each of its texts twice: once in a token or a piece of trivia, and once as
the part of the whole text under a span.  The two agree when the texts stand end to
end, each where the one before it stops (`Laid`).  Then every text can be read back
off the whole (`Laid.slice?_eq`), and the full spans of the tokens cover it without gap
or overlap (`Laid.tiling`).

A tree is **well laid** (`Tree.WellLaid`) when its text is what its tokens are made of,
laid end to end from offset zero, and the spans of every node are those of its tokens
taken together.  Its texts can be read back also when the text goes on behind them with
tokens that are not in the tree (`Tree.LaidBefore`).  Nothing in this depends on how the
tree came about.
-/
namespace SpacingLint

/-- A text and the span at which it is said to stand. -/
abbrev Chunk := String × Span

namespace Chunk

/-- The number of bytes of some chunks. -/
def size : List Chunk → Nat
  | [] => 0
  | chunk :: rest => chunk.1.utf8ByteSize + size rest

/-- The texts of some chunks, one after the other. -/
def text (chunks : List Chunk) : String := String.join (chunks.map Prod.fst)

@[simp] theorem size_nil : size [] = 0 := rfl

@[simp] theorem size_cons (chunk : Chunk) (rest : List Chunk) :
    size (chunk :: rest) = chunk.1.utf8ByteSize + size rest := rfl

@[simp] theorem size_append (chunks more : List Chunk) :
    size (chunks ++ more) = size chunks + size more := by
  induction chunks with
  | nil => simp
  | cons chunk rest ih => simp [ih, Nat.add_assoc]

@[simp] theorem text_nil : text [] = "" := rfl

@[simp] theorem text_cons (chunk : Chunk) (rest : List Chunk) :
    text (chunk :: rest) = chunk.1 ++ text rest := by
  simp [text]

@[simp] theorem text_append (chunks more : List Chunk) :
    text (chunks ++ more) = text chunks ++ text more := by
  simp [text]

theorem utf8ByteSize_text (chunks : List Chunk) : (text chunks).utf8ByteSize = size chunks := by
  induction chunks with
  | nil => rfl
  | cons chunk rest ih => rw [text_cons, String.utf8ByteSize_append, ih, size_cons]

end Chunk

/-- The text of a piece of trivia, where it stands. -/
def Trivia.chunk (trivia : Trivia) : Chunk := (trivia.text, trivia.span)

/-- The texts a token is made of, where they stand. -/
def Token.chunks (token : Token) : List Chunk :=
  token.leading.map Trivia.chunk ++
    (token.text, token.span) :: token.trailing.map Trivia.chunk

theorem Token.text_chunks (token : Token) : Chunk.text token.chunks = token.fullText := by
  simp [Chunk.text, chunks, fullText, texts, Function.comp_def, Trivia.chunk]

/-! ## Chunks laid end to end -/

/-- Some chunks stand end to end: the first one at `offset`, each of the others where the
one before it stops. -/
def Laid : Nat → List Chunk → Prop
  | _, [] => True
  | offset, (text, span) :: rest =>
    span = Span.ofSize offset text.utf8ByteSize ∧ Laid (offset + text.utf8ByteSize) rest

theorem laid_append {offset : Nat} {chunks more : List Chunk} :
    Laid offset (chunks ++ more) ↔
      Laid offset chunks ∧ Laid (offset + Chunk.size chunks) more := by
  induction chunks generalizing offset with
  | nil => simp [Laid]
  | cons chunk rest ih =>
    simp only [List.cons_append, Laid, ih, Chunk.size_cons, and_assoc, Nat.add_assoc]

theorem laid_singleton {offset : Nat} {chunk : Chunk} :
    Laid offset [chunk] ↔ chunk.2 = Span.ofSize offset chunk.1.utf8ByteSize := by
  simp [Laid]

namespace Laid

variable {offset : Nat} {chunks : List Chunk}

/-- A chunk stands behind all that is before it. -/
theorem span_eq {before after : List Chunk} {chunk : Chunk}
    (h : Laid offset (before ++ chunk :: after)) :
    chunk.2 = Span.ofSize (offset + Chunk.size before) chunk.1.utf8ByteSize :=
  (laid_append.mp h).2.1

theorem start_ge (h : Laid offset chunks) {chunk : Chunk} (hmem : chunk ∈ chunks) :
    offset ≤ chunk.2.start := by
  obtain ⟨before, after, rfl⟩ := List.append_of_mem hmem
  rw [h.span_eq, Span.ofSize_start]
  exact Nat.le_add_right _ _

theorem stop_le (h : Laid offset chunks) {chunk : Chunk} (hmem : chunk ∈ chunks) :
    chunk.2.stop ≤ offset + Chunk.size chunks := by
  obtain ⟨before, after, rfl⟩ := List.append_of_mem hmem
  rw [h.span_eq, Span.ofSize_stop, Chunk.size_append, Chunk.size_cons]
  omega

/-- **Texts are found where they stand**: a chunk is the slice of the whole text under
its span. -/
theorem slice?_eq (h : Laid 0 chunks) {chunk : Chunk} (hmem : chunk ∈ chunks) :
    Text.slice? (Chunk.text chunks).toList chunk.2.start chunk.2.stop =
      some chunk.1.toList := by
  obtain ⟨before, after, rfl⟩ := List.append_of_mem hmem
  have hbefore : Chunk.size before = Text.bytes (Chunk.text before).toList := by
    rw [← Chunk.utf8ByteSize_text, Text.utf8ByteSize_eq_bytes]
  rw [h.span_eq, Span.ofSize_start, Span.ofSize_stop, Nat.zero_add, hbefore,
    Text.utf8ByteSize_eq_bytes, Chunk.text_append, Chunk.text_cons, String.toList_append,
    String.toList_append, ← List.append_assoc]
  exact Text.slice?_append _ _ _

theorem start_of_head? (h : Laid offset chunks) {chunk : Chunk}
    (hhead : chunks.head? = some chunk) : chunk.2.start = offset := by
  obtain ⟨rest, rfl⟩ := List.head?_eq_some_iff.mp hhead
  rw [h.1, Span.ofSize_start]

theorem stop_of_getLast? (h : Laid offset chunks) {chunk : Chunk}
    (hlast : chunks.getLast? = some chunk) : chunk.2.stop = offset + Chunk.size chunks := by
  obtain ⟨init, rfl⟩ := List.getLast?_eq_some_iff.mp hlast
  rw [h.span_eq, Span.ofSize_stop, Chunk.size_append, Chunk.size_cons, Chunk.size_nil]
  omega

end Laid

/-! ## Tokens laid end to end -/

namespace Span

theorem hull_assoc (a b c : Span) : (a.hull b).hull c = a.hull (b.hull c) :=
  Span.ext (Nat.min_assoc ..) (Nat.max_assoc ..)

/-- Two spans that meet make up one. -/
theorem hull_ofSize (start size more : Nat) :
    (ofSize start size).hull (ofSize (start + size) more) = ofSize start (size + more) := by
  refine Span.ext ?_ ?_
  · exact Nat.min_eq_left (Nat.le_add_right start size)
  · simp only [hull_stop, ofSize_stop]
    omega

end Span

namespace Token

variable (token : Token)

/-- The first chunk of a token is where its full span begins. -/
theorem head?_chunks : ∃ text,
    token.chunks.head? = some (text, token.leading.head?.elim token.span Trivia.span) := by
  cases h : token.leading <;> simp [chunks, h, Trivia.chunk]

/-- The last chunk of a token is where its full span stops. -/
theorem getLast?_chunks : ∃ text,
    token.chunks.getLast? = some (text, token.trailing.getLast?.elim token.span Trivia.span) := by
  rw [chunks, List.getLast?_append, List.getLast?_cons, List.getLast?_map]
  cases h : token.trailing.getLast? <;> simp [Trivia.chunk]

variable {token}

/-- **The full span of a token** covers exactly what the token is made of. -/
theorem fullSpan_eq {offset : Nat} (h : Laid offset token.chunks) :
    token.fullSpan = Span.ofSize offset (Chunk.size token.chunks) := by
  obtain ⟨first, hfirst⟩ := token.head?_chunks
  obtain ⟨last, hlast⟩ := token.getLast?_chunks
  refine Span.ext ?_ ?_
  · rw [fullSpan, Span.hull_start, Span.ofSize_start, h.start_of_head? hfirst]
    exact Nat.min_eq_left (h.start_ge (List.mem_of_getLast? hlast))
  · rw [fullSpan, Span.hull_stop, Span.ofSize_stop, h.stop_of_getLast? hlast]
    exact Nat.max_eq_right (h.stop_le (List.mem_of_head? hfirst))

/-- The token with one more piece of trivia behind it. -/
def trailedBy (token : Token) (trivia : Trivia) : Token :=
  { token with trailing := token.trailing ++ [trivia] }

@[simp] theorem chunks_trailedBy (token : Token) (trivia : Trivia) :
    (token.trailedBy trivia).chunks = token.chunks ++ [trivia.chunk] := by
  simp [chunks, trailedBy]

theorem fullSpan_trailedBy {offset : Nat} (trivia : Trivia)
    (h : Laid offset (token.chunks ++ [trivia.chunk])) :
    (token.trailedBy trivia).fullSpan = token.fullSpan.hull trivia.span := by
  obtain ⟨htoken, htrivia⟩ := laid_append.mp h
  have hspan : trivia.span = _ := laid_singleton.mp htrivia
  rw [← chunks_trailedBy] at h
  rw [fullSpan_eq h, fullSpan_eq htoken, hspan, Span.hull_ofSize, chunks_trailedBy,
    Chunk.size_append]
  rfl

end Token

/-- The chunks of some tokens, one token after the other. -/
def Token.allChunks (tokens : List Token) : List Chunk := tokens.flatMap chunks

theorem Token.text_allChunks (tokens : List Token) :
    Chunk.text (allChunks tokens) = String.join (tokens.map fullText) := by
  induction tokens with
  | nil => rfl
  | cons token rest ih =>
    rw [List.map_cons, String.join_cons, ← ih, ← text_chunks, ← Chunk.text_append]
    rfl

/-- Some spans cover the offsets from `start` to `stop` in order, without gap or overlap. -/
def Span.Tiling : (start : Nat) → List Span → (stop : Nat) → Prop
  | start, [], stop => start = stop
  | start, span :: rest, stop => span.start = start ∧ Tiling span.stop rest stop

/-- **Full spans tile**: those of tokens laid end to end leave no gap and do not overlap. -/
theorem Laid.tiling {offset : Nat} {tokens : List Token}
    (h : Laid offset (Token.allChunks tokens)) :
    Span.Tiling offset (tokens.map Token.fullSpan)
      (offset + Chunk.size (Token.allChunks tokens)) := by
  induction tokens generalizing offset with
  | nil => rfl
  | cons token rest ih =>
    obtain ⟨htoken, hrest⟩ := laid_append.mp h
    refine ⟨by rw [Token.fullSpan_eq htoken, Span.ofSize_start], ?_⟩
    have hnext := ih hrest
    rw [Nat.add_assoc, ← Chunk.size_append] at hnext
    rw [Token.fullSpan_eq htoken]
    exact hnext

/-! ## Extents -/

namespace Extent

theorem join_assoc (before : Option Extent) (next last : Extent) :
    join (some (join before next)) last = join before (join (some next) last) := by
  cases before <;> simp [join, Span.hull_assoc]

/-- The extent of some tokens taken together; `none` if there are none. -/
def ofTokens (tokens : List Token) : Option Extent :=
  tokens.foldl (fun before token => some (join before (ofToken token))) none

@[simp] theorem ofTokens_nil : ofTokens [] = none := rfl

@[simp] theorem ofTokens_singleton (token : Token) : ofTokens [token] = some (ofToken token) := rfl

/-- The extent of a concatenation is the join of the extents. -/
theorem ofTokens_append (tokens more : List Token) :
    ofTokens (tokens ++ more) =
      (ofTokens more).elim (ofTokens tokens) fun extent =>
        some (join (ofTokens tokens) extent) := by
  -- The accumulator of the fold plays the part of the first tokens.
  have key : ∀ (more : List Token) (before : Option Extent),
      more.foldl (fun before token => some (join before (ofToken token))) before =
        (ofTokens more).elim before fun extent => some (join before extent) := by
    intro more
    induction more with
    | nil => intro before; rfl
    | cons token rest ih =>
      intro before
      rw [ofTokens, List.foldl_cons, List.foldl_cons, ih, ih (some _)]
      cases ofTokens rest with
      | none => rfl
      | some extent => exact congrArg some (join_assoc before (ofToken token) extent)
  rw [ofTokens, List.foldl_append]
  exact key more _

theorem ofTokens_concat (tokens : List Token) (last : Token) :
    ofTokens (tokens ++ [last]) = some (join (ofTokens tokens) (ofToken last)) := by
  rw [ofTokens_append, ofTokens_singleton, Option.elim_some]

theorem ofTokens_eq_none_iff {tokens : List Token} : ofTokens tokens = none ↔ tokens = [] := by
  refine ⟨fun h => ?_, fun h => by rw [h, ofTokens_nil]⟩
  rcases List.eq_nil_or_concat tokens with rfl | ⟨init, last, rfl⟩
  · rfl
  · rw [List.concat_eq_append, ofTokens_concat] at h
    cases h

/-- Tokens laid end to end reach over all their chunks. -/
theorem fullSpan_of_laid {offset : Nat} {tokens : List Token} {extent : Extent}
    (h : Laid offset (Token.allChunks tokens)) (hextent : ofTokens tokens = some extent) :
    extent.fullSpan = Span.ofSize offset (Chunk.size (Token.allChunks tokens)) := by
  induction tokens generalizing offset extent with
  | nil => cases hextent
  | cons token rest ih =>
    obtain ⟨htoken, hrest⟩ := laid_append.mp h
    rw [← List.singleton_append, ofTokens_append, ofTokens_singleton] at hextent
    have hfull := Token.fullSpan_eq htoken
    cases hmore : ofTokens rest with
    | none =>
      obtain rfl := ofTokens_eq_none_iff.mp hmore
      cases hextent
      simpa [Token.allChunks, ofToken] using hfull
    | some later =>
      rw [hmore] at hextent
      cases hextent
      show token.fullSpan.hull later.fullSpan = _
      rw [hfull, ih hrest hmore, Span.hull_ofSize, ← Chunk.size_append]
      rfl

end Extent

/-! ## Well laid trees -/

/-- The spans of a node are those of its tokens taken together.  A node without tokens
has no width. -/
def Node.Fits (node : Node) : Prop :=
  match Extent.ofTokens node.tokens with
  | some extent => node.span = extent.span ∧ node.fullSpan = extent.fullSpan
  | none => ∃ offset, node.span = Span.caret offset ∧ node.fullSpan = Span.caret offset

/-- A tree whose text goes on behind its own tokens with **lost** ones: all of them stand end
to end from the start, and every node reaches as far as its tokens do. -/
structure Tree.LaidBefore (tree : Tree) (lost : List Token) : Prop where
  /-- The text is what the tokens of the tree and then the lost ones are made of. -/
  text_eq : tree.text = Chunk.text (Token.allChunks (tree.tokens ++ lost))
  /-- The texts of the tokens and their trivia stand end to end. -/
  laid : Laid 0 (Token.allChunks (tree.tokens ++ lost))
  /-- Every node reaches as far as its tokens do. -/
  fits : ∀ node ∈ tree.nodes, node.Fits

namespace Tree.LaidBefore

variable {tree : Tree} {lost : List Token} (h : tree.LaidBefore lost)

include h

theorem text_eq_join : tree.text =
    String.join (tree.tokens.map Token.fullText) ++ String.join (lost.map Token.fullText) := by
  rw [h.text_eq, Token.text_allChunks, List.map_append, String.join_append]

/-- No token of the tree reaches beyond the text. -/
theorem stop_le_length {token : Token} (htoken : token ∈ tree.tokens) :
    token.span.stop ≤ tree.length := by
  have hmem : (token.text, token.span) ∈ Token.allChunks (tree.tokens ++ lost) :=
    List.mem_flatMap.mpr ⟨token, List.mem_append_left _ htoken, by simp [Token.chunks]⟩
  have hstop := h.laid.stop_le hmem
  rwa [Nat.zero_add, ← Chunk.utf8ByteSize_text, ← h.text_eq] at hstop

/-- Texts of tokens are found where they stand, whatever else the text holds. -/
theorem slice?_chunk {token : Token} (htoken : token ∈ tree.tokens) {chunk : Chunk}
    (hchunk : chunk ∈ token.chunks) : tree.slice? chunk.2 = some chunk.1 := by
  have hmem : chunk ∈ Token.allChunks (tree.tokens ++ lost) :=
    List.mem_flatMap.mpr ⟨token, List.mem_append_left _ htoken, hchunk⟩
  rw [slice?, h.text_eq, h.laid.slice?_eq hmem, Option.map_some, String.ofList_toList]

/-- The text of a token stands under its span. -/
theorem slice?_token {token : Token} (htoken : token ∈ tree.tokens) :
    tree.slice? token.span = some token.text :=
  h.slice?_chunk htoken (show (token.text, token.span) ∈ token.chunks by simp [Token.chunks])

/-- The text of a piece of trivia stands under its span. -/
theorem slice?_trivia {token : Token} (htoken : token ∈ tree.tokens) {trivia : Trivia}
    (htrivia : trivia ∈ token.leading ++ token.trailing) :
    tree.slice? trivia.span = some trivia.text := by
  refine h.slice?_chunk htoken (show trivia.chunk ∈ token.chunks from ?_)
  rcases List.mem_append.mp htrivia with hleading | htrailing
  · exact List.mem_append_left _ (List.mem_map_of_mem hleading)
  · exact List.mem_append_right _ (List.mem_cons_of_mem _ (List.mem_map_of_mem htrailing))

end Tree.LaidBefore

/-- **Well laid**: text, tokens and nodes of a tree agree. -/
structure Tree.WellLaid (tree : Tree) : Prop where
  /-- The text is what the tokens are made of, one after the other. -/
  text_eq : tree.text = String.join (tree.tokens.map Token.fullText)
  /-- The texts of the tokens and their trivia stand end to end, from the start. -/
  laid : Laid 0 (Token.allChunks tree.tokens)
  /-- Every node reaches as far as its tokens do. -/
  fits : ∀ node ∈ tree.nodes, node.Fits

namespace Tree.WellLaid

variable {tree : Tree} (h : tree.WellLaid)

include h

theorem text_eq_chunks : tree.text = Chunk.text (Token.allChunks tree.tokens) := by
  rw [Token.text_allChunks, h.text_eq]

theorem length_eq : tree.length = Chunk.size (Token.allChunks tree.tokens) := by
  rw [length, h.text_eq_chunks, Chunk.utf8ByteSize_text]

/-- Nothing is lost in a well laid tree. -/
theorem laidBefore : tree.LaidBefore [] where
  text_eq := by rw [List.append_nil, h.text_eq_chunks]
  laid := by rw [List.append_nil]; exact h.laid
  fits := h.fits

/-- The full spans of the tokens cover the text. -/
theorem tiling : Span.Tiling 0 (tree.tokens.map Token.fullSpan) tree.length := by
  have htiling := h.laid.tiling
  rwa [Nat.zero_add, ← h.length_eq] at htiling

/-- The root of a tree with tokens reaches over the whole text. -/
theorem fullSpan_root (hne : tree.tokens ≠ []) : tree.root.fullSpan = tree.span := by
  have hroot := h.fits tree.root (by rw [nodes_eq, Node.preorder_eq]; exact List.mem_cons_self ..)
  unfold Node.Fits at hroot
  split at hroot
  · next extent hextent =>
    rw [hroot.2, Extent.fullSpan_of_laid h.laid hextent, ← h.length_eq]
    exact Span.ext rfl (Nat.zero_add _)
  · next hnone => exact absurd (Extent.ofTokens_eq_none_iff.mp hnone) hne

end Tree.WellLaid
end SpacingLint
