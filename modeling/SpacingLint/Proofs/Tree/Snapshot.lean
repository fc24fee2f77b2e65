import Mathlib.Data.List.DropRight
import SpacingLint.Proofs.Source.Writing
import SpacingLint.Proofs.Text.Readable
import SpacingLint.Text.Space
import SpacingLint.Tree.Snapshot

/-! # A snapshot shows all there is of a tree

A line of a snapshot shows of an element its depth, kind and span, and of a token also its text
and the kinds and texts of its trivia; these make up a **row** (`Snapshot.Row`).  Whole spans,
spans of trivia and the text of the tree are not shown.  Two trees that were built without a
refusal are equal nevertheless if their snapshots are, in two steps.

* *Lines can be read back.*  A row is readable where a line ends (`Row.readable_chars`): it
  begins with blanks and a name, quoted texts cannot run over into what follows, and a line
  break inside a text is never written as one.  So equal snapshots have equal rows.
* *Rows determine a tree that is well laid.*  Depths tell where the children of a node stop
  (`Element.eq_of_rows`), texts laid end to end tell where trivia stands, and the whole span of
  a node is that of its tokens, or else its caret.

Lines are closed with a line break each, and what is space is cut off behind the last one
(`Snapshot.written`).  That costs the last line break only, since no line ends with space.
-/
namespace SpacingLint
namespace Snapshot

open Text

/-! ## Rows -/

/-- What a line shows of a token beside its kind and its span. -/
structure Content where
  /-- The text of the token. -/
  text : String
  /-- The trivia before it. -/
  leading : List Piece
  /-- The trivia after it. -/
  trailing : List Piece

/-- What a line shows of an element. -/
structure Row where
  /-- How deep the element stands. -/
  depth : Nat
  /-- What it is. -/
  kind : Kind
  /-- Where it stands. -/
  span : Span
  /-- What is shown of a token; `none` for a node. -/
  content : Option Content

/-- The row of an element at a depth. -/
def Row.ofEntry : Nat × Element → Row
  | (depth, .token t) => ⟨depth, t.kind, t.span,
      some ⟨t.text, t.leading.map Trivia.piece, t.trailing.map Trivia.piece⟩⟩
  | (depth, .node n) => ⟨depth, n.kind, n.span, none⟩

/-- The rows of some elements. -/
def rows (entries : List (Nat × Element)) : List Row := entries.map Row.ofEntry

/-! ## How rows are written -/

/-- The blanks before an element. -/
def indentChars (depth : Nat) : List Char := List.replicate (2 * depth) ' '

/-- A span. -/
def spanChars (span : Span) : List Char :=
  Nat.toDigits 10 span.start ++ (['.', '.'] ++ Nat.toDigits 10 span.stop)

/-- A piece of trivia. -/
def pieceLine (piece : Piece) : List Char :=
  piece.kind.name.toList ++ ([' '] ++ (quoted piece.text).toList)

/-- What a labelled list begins with. -/
def opening (label : String) : List Char := [' '] ++ (label.toList ++ ['=', '['])

/-- A labelled list of pieces; nothing if there are none. -/
def piecesLine (label : String) : List Piece → List Char
  | [] => []
  | first :: more =>
    opening label ++
      (pieceLine first ++ (more.flatMap (fun piece => [',', ' '] ++ pieceLine piece) ++ [']']))

/-- What a line shows of a token at its end. -/
def contentChars : Option Content → List Char
  | none => []
  | some content =>
    [' '] ++ ((quoted content.text).toList ++
      (piecesLine "leading" content.leading ++ piecesLine "trailing" content.trailing))

/-- The line of a row. -/
def Row.chars (row : Row) : List Char :=
  indentChars row.depth ++
    (row.kind.name.toList ++ (['@'] ++ (spanChars row.span ++ contentChars row.content)))

theorem intercalate_cons_eq {α : Type} (sep first : List α) (more : List (List α)) :
    sep.intercalate (first :: more) = first ++ more.flatMap (sep ++ ·) := by
  induction more generalizing first with
  | nil => simp
  | cons second rest ih =>
    rw [List.intercalate_cons_of_ne_nil (List.cons_ne_nil _ _), ih, List.flatMap_cons]
    simp only [List.append_assoc]

theorem toList_triviaList (label : String) (entries : List Trivia) :
    (triviaList label entries).toList = piecesLine label (entries.map Trivia.piece) := by
  cases entries with
  | nil => rfl
  | cons first more =>
    have hpiece : ∀ entry : Trivia, (trivia entry).toList = pieceLine entry.piece := by
      intro entry
      simp [trivia, pieceLine, Trivia.piece]
    simp [triviaList, piecesLine, opening, String.toList_intercalate, intercalate_cons_eq,
      List.flatMap_map, hpiece]

theorem toList_span (span : Span) : (toString span).toList = spanChars span := by
  show (toString span.start ++ ".." ++ toString span.stop).toList = _
  simp [spanChars]

theorem toList_label (node : Node) :
    node.label.toList = node.kind.name.toList ++ (['@'] ++ spanChars node.span) := by
  show (node.kind.name ++ "@" ++ toString node.span).toList = _
  simp only [String.toList_append, toList_span, List.append_assoc]
  rfl

theorem toList_token (t : Token) :
    (token t).toList = t.kind.name.toList ++ (['@'] ++ (spanChars t.span ++
      contentChars (some ⟨t.text, t.leading.map Trivia.piece, t.trailing.map Trivia.piece⟩))) := by
  simp only [token, contentChars, String.toList_append, toList_span, toList_triviaList,
    List.append_assoc]
  rfl

/-- **A line shows exactly the row** of its element. -/
theorem toList_line (entry : Nat × Element) : (line entry).toList = (Row.ofEntry entry).chars := by
  obtain ⟨depth, element⟩ := entry
  rw [line, String.toList_append, String.toList_ofList]
  cases element with
  | token t =>
    show indentChars depth ++ (token t).toList = _
    rw [toList_token]
    rfl
  | node n =>
    show indentChars depth ++ n.label.toList = _
    rw [toList_label, Row.chars]
    simp [Row.ofEntry, contentChars]

/-! ## Rows can be read back -/

theorem readable_indent : Readable (Past (· == ' ')) indentChars := by
  refine .of_class (fun depth other heq => ?_) fun depth c hc => ?_
  · have hlength := congrArg List.length heq
    simp only [indentChars, List.length_replicate] at hlength
    omega
  · simp [List.eq_of_mem_replicate hc]

theorem readable_kind : Readable (Past Char.isAlpha) fun kind : Kind => kind.name.toList := by
  refine .of_class (fun kind other heq => ?_) fun kind => ?_
  · have hname := congrArg Kind.ofName? (String.toList_inj.mp heq)
    rw [Kind.ofName?_name, Kind.ofName?_name] at hname
    exact Option.some.inj hname
  · have hletters : kind.name.toList.all Char.isAlpha = true := by cases kind <;> decide +kernel
    exact List.all_eq_true.mp hletters

theorem readable_triviaKind :
    Readable (Past Char.isAlpha) fun kind : TriviaKind => kind.name.toList := by
  refine .of_class (fun kind other heq => ?_) fun kind => ?_
  · have hname := congrArg TriviaKind.ofName? (String.toList_inj.mp heq)
    rw [TriviaKind.ofName?_name, TriviaKind.ofName?_name] at hname
    exact Option.some.inj hname
  · have hletters : kind.name.toList.all Char.isAlpha = true := by cases kind <;> decide +kernel
    exact List.all_eq_true.mp hletters

theorem readable_span : Readable (Past Char.isDigit) spanChars := by
  have hdots := readable_decimal.append (readable_decimal.behind ['.', '.'])
    fun _ _ _ => Before.past (before_cons ..) rfl
  have hparts : Function.Injective fun span : Span => (span.start, span.stop) :=
    fun _ _ heq => Span.ext (Prod.mk.inj heq).1 (Prod.mk.inj heq).2
  exact (hdots.comp hparts :)

theorem readable_piece : Readable Anything pieceLine := by
  have hboth := readable_triviaKind.append (readable_quoted.behind [' '])
    fun _ _ _ => Before.past (before_cons ..) rfl
  have hparts : Function.Injective fun piece : Piece => (piece.kind, piece.text) := by
    rintro ⟨kind, text⟩ ⟨kind', text'⟩ heq
    obtain ⟨rfl, rfl⟩ := Prod.mk.inj heq
    rfl
  exact (hboth.comp hparts :)

/-- A list is readable where no list with its label begins. -/
theorem readable_pieces (label : String) :
    Readable (fun rest => ¬ opening label <+: rest) (piecesLine label) := by
  have hmore : Readable (Before ']')
      (List.flatMap fun piece => [',', ' '] ++ pieceLine piece) :=
    (readable_piece.behind [',', ' ']).flatMap fun _ _ => not_before_cons (by decide) _
  have hlist := readable_piece.append hmore.closed fun _ _ _ => trivial
  intro pieces others rest more hrest hmore heq
  cases pieces with
  | nil =>
    cases others with
    | nil => exact ⟨rfl, heq⟩
    | cons first others =>
      refine absurd ?_ hrest
      rw [show rest = _ from heq, piecesLine, List.append_assoc]
      exact List.prefix_append ..
  | cons first pieces =>
    cases others with
    | nil =>
      refine absurd ?_ hmore
      rw [← show _ = more from heq, piecesLine, List.append_assoc]
      exact List.prefix_append ..
    | cons second others =>
      obtain ⟨hpair, rfl⟩ := (hlist.behind (opening label)) (a := (first, pieces))
        (b := (second, others)) trivial trivial heq
      obtain ⟨rfl, rfl⟩ := Prod.mk.inj hpair
      exact ⟨rfl, rfl⟩

/-- A list with a label does not begin where a line ends. -/
theorem not_opening_of_before {label : String} {rest : List Char} (h : Before '\n' rest) :
    ¬ opening label <+: rest := by
  rintro ⟨tail, rfl⟩
  cases h

theorem not_leading_of_trailing {pieces : List Piece} {rest : List Char} (h : Before '\n' rest) :
    ¬ opening "leading" <+: piecesLine "trailing" pieces ++ rest := by
  cases pieces with
  | nil => exact not_opening_of_before h
  | cons first more =>
    -- The labels differ in their first letters.
    rintro ⟨tail, heq⟩
    simp [piecesLine, opening] at heq

theorem readable_content : Readable (Before '\n') contentChars := by
  have hlists := (readable_pieces "leading").append
    ((readable_pieces "trailing").imp fun _ => not_opening_of_before)
    fun _ _ => not_leading_of_trailing
  have htoken := (readable_quoted.append hlists fun _ _ _ => trivial).behind [' ']
  intro content other rest more hrest hmore heq
  cases content with
  | none =>
    cases other with
    | none => exact ⟨rfl, heq⟩
    | some other =>
      obtain rfl : rest = _ := heq
      cases hrest
  | some content =>
    cases other with
    | none =>
      obtain rfl : _ = more := heq
      cases hmore
    | some other =>
      obtain ⟨text, leading, trailing⟩ := content
      obtain ⟨text', leading', trailing'⟩ := other
      obtain ⟨hparts, hrests⟩ := htoken (a := (text, leading, trailing))
        (b := (text', leading', trailing')) hrest hmore heq
      cases hparts
      exact ⟨rfl, hrests⟩

theorem past_digits (content : Option Content) {rest : List Char} (h : Before '\n' rest) :
    Past Char.isDigit (contentChars content ++ rest) := by
  cases content with
  | none => exact h.past rfl
  | some content => exact (before_cons ' ' _).past rfl

theorem past_blanks (kind : Kind) (rest : List Char) :
    Past (· == ' ') (kind.name.toList ++ rest) := by
  cases kind <;> simp [Kind.name, Past]

/-- **A row is readable where its line ends.** -/
theorem Row.readable_chars : Readable (Before '\n') Row.chars := by
  have hspan := readable_span.append readable_content fun content _ => past_digits content
  have hkind := readable_kind.append (hspan.behind ['@'])
    fun _ _ _ => Before.past (before_cons ..) rfl
  have hindent := readable_indent.append hkind fun parts rest _ => by
    rw [List.append_assoc]
    exact past_blanks parts.1 _
  have hparts : Function.Injective
      fun row : Row => (row.depth, row.kind, row.span, row.content) := by
    rintro ⟨depth, kind, span, content⟩ ⟨depth', kind', span', content'⟩ heq
    cases heq
    rfl
  exact (hindent.comp hparts :)

/-! ## Whole snapshots -/

/-- A row on a line that is closed. -/
def Row.line (row : Row) : List Char := row.chars ++ ['\n']

/-- The lines of a tree, each of them closed. -/
def written (tree : Tree) : List Char :=
  (tree.root.outline 0).flatMap fun entry => (line entry).toList ++ ['\n']

theorem written_eq (tree : Tree) :
    written tree = (rows (tree.root.outline 0)).flatMap Row.line := by
  simp only [written, rows, List.flatMap_map, toList_line, Row.line]

theorem outline_ne_nil (node : Node) (depth : Nat) : node.outline depth ≠ [] := by
  cases node
  rw [Node.outline]
  exact List.cons_ne_nil _ _

theorem intercalate_append_eq {α : Type} (sep first : List α) (more : List (List α)) :
    sep.intercalate (first :: more) ++ sep = (first :: more).flatMap (· ++ sep) := by
  induction more generalizing first with
  | nil => simp
  | cons second rest ih =>
    rw [List.intercalate_cons_of_ne_nil (List.cons_ne_nil _ _), List.append_assoc, ih]
    rfl

/-- A snapshot lacks the last line break only. -/
theorem toList_snapshot_append (tree : Tree) : tree.snapshot.toList ++ ['\n'] = written tree := by
  obtain ⟨first, more, hentries⟩ := List.exists_cons_of_ne_nil (outline_ne_nil tree.root 0)
  rw [Tree.snapshot, written, hentries, String.toList_intercalate, List.map_cons, List.map_cons]
  refine (intercalate_append_eq ['\n'] _ _).trans ?_
  simp only [List.flatMap_cons, List.flatMap_map]

/-- **Equal snapshots have equal rows.** -/
theorem rows_eq_of_snapshot_eq {tree other : Tree} (h : tree.snapshot = other.snapshot) :
    rows (tree.root.outline 0) = rows (other.root.outline 0) := by
  have hlines : Readable (· = []) (List.flatMap Row.line) :=
    Row.readable_chars.closed.flatMap fun row rest hnil => by simp at hnil
  have hwritten : written tree = written other := by
    rw [← toList_snapshot_append, ← toList_snapshot_append, h]
  rw [written_eq, written_eq] at hwritten
  exact (hlines rfl rfl (congrArg (· ++ []) hwritten)).1

/-- A text that ends with a character that is no space. -/
def Firm (cs : List Char) : Prop := ∃ init last, cs = init ++ [last] ∧ isSpace last = false

theorem Firm.append {cs : List Char} (h : Firm cs) (before : List Char) : Firm (before ++ cs) := by
  obtain ⟨init, last, rfl, hlast⟩ := h
  exact ⟨before ++ init, last, (List.append_assoc ..).symm, hlast⟩

theorem firm_span (span : Span) : Firm (spanChars span) := by
  refine Firm.append (Firm.append ?_ _) _
  have hne : Nat.toDigits 10 span.stop ≠ [] := Nat.toDigits_ne_nil
  refine ⟨_, _, (List.dropLast_concat_getLast hne).symm, ?_⟩
  obtain ⟨d, hd, hlast⟩ := exists_digit_of_mem_toDigits (by decide) (by decide)
    (List.getLast_mem hne)
  have hdigits : ∀ d < 16, isSpace (Nat.digitChar d) = false := by decide
  rw [hlast]
  exact hdigits d hd

theorem firm_pieces {label : String} {pieces : List Piece} (hne : pieces ≠ []) :
    Firm (piecesLine label pieces) := by
  cases pieces with
  | nil => exact absurd rfl hne
  | cons first more =>
    exact Firm.append (Firm.append (Firm.append ⟨[], ']', rfl, by decide⟩ _) _) _

theorem firm_quoted (text : String) : Firm (quoted text).toList := by
  refine ⟨'"' :: text.toList.flatMap (quoteChar '"'), '"', ?_, by decide⟩
  rw [quoted, String.toList_ofList, quoteWith, List.cons_append]

/-- A line ends with a digit, a quotation mark or a bracket. -/
theorem Row.firm_chars (row : Row) : Firm row.chars := by
  refine Firm.append (Firm.append (Firm.append ?_ _) _) _
  cases row.content with
  | none =>
    rw [contentChars, List.append_nil]
    exact firm_span row.span
  | some content =>
    refine Firm.append (Firm.append ?_ _) _
    by_cases htrailing : content.trailing = []
    · rw [htrailing, piecesLine, List.append_nil]
      by_cases hleading : content.leading = []
      · rw [hleading, piecesLine, List.append_nil]
        exact firm_quoted content.text
      · exact Firm.append (firm_pieces hleading) _
    · exact Firm.append (Firm.append (firm_pieces htrailing) _) _

/-- **Cutting off space** behind the lines leaves the snapshot. -/
theorem toList_snapshot_eq (tree : Tree) :
    tree.snapshot.toList = (written tree).rdropWhile isSpace := by
  have hfirm : Firm tree.snapshot.toList := by
    obtain ⟨front, entry, hentries⟩ :=
      (List.eq_nil_or_concat (tree.root.outline 0)).resolve_left (outline_ne_nil tree.root 0)
    have hlines := toList_snapshot_append tree
    rw [written, hentries, List.concat_eq_append, List.flatMap_append, List.flatMap_singleton,
      ← List.append_assoc, toList_line] at hlines
    rw [List.append_cancel_right hlines]
    exact (Row.firm_chars _).append _
  obtain ⟨init, last, hsnapshot, hlast⟩ := hfirm
  rw [← toList_snapshot_append, List.rdropWhile_concat_pos _ _ _ (by decide), hsnapshot,
    List.rdropWhile_concat_neg _ _ _ (by simp [hlast])]

end Snapshot

/-! ## Trees from rows -/

open Snapshot

/-- Some rows begin further out than at a depth. -/
def Snapshot.Outside (depth : Nat) (rows : List Row) : Prop :=
  ∀ row ∈ rows.head?, row.depth < depth

/-- Two nodes with the same tokens and the same span have the same whole span. -/
theorem Node.Fits.fullSpan_eq {node other : Node} (h : node.Fits) (hother : other.Fits)
    (htokens : node.tokens = other.tokens) (hspan : node.span = other.span) :
    node.fullSpan = other.fullSpan := by
  by_cases hnil : node.tokens = []
  · have hnone : Extent.ofTokens node.tokens = none := Extent.ofTokens_eq_none_iff.mpr hnil
    unfold Fits at h hother
    rw [← htokens] at hother
    simp only [hnone] at h hother
    obtain ⟨offset, hcaret, hfull⟩ := h
    obtain ⟨offset', hcaret', hfull'⟩ := hother
    rw [hfull, hfull', ← hcaret, ← hcaret', hspan]
  · exact (h.spans_eq hother htokens hnil).2

theorem Snapshot.outside_nil (depth : Nat) : Outside depth [] := fun _ hrow => by cases hrow

/-- The first row of some elements is at their depth. -/
theorem Snapshot.exists_rows_cons (depth : Nat) (child : Element) (tail : List Element) :
    ∃ row more, rows (Element.outlines depth (child :: tail)) = row :: more ∧
      row.depth = depth := by
  cases child with
  | token t => exact ⟨_, _, rfl, rfl⟩
  | node n =>
    cases n
    exact ⟨_, _, rfl, rfl⟩

theorem Snapshot.Outside.ne_append {depth : Nat} {rest : List Row} (h : Outside depth rest)
    (child : Element) (tail : List Element) (more : List Row) :
    rest ≠ rows (Element.outlines depth (child :: tail)) ++ more := by
  rintro rfl
  obtain ⟨row, below, hrows, hdepth⟩ := exists_rows_cons depth child tail
  rw [hrows] at h
  exact absurd (h row rfl) (by omega)

/-- What comes behind the children of a node is further out than they are. -/
theorem Snapshot.Outside.append {depth : Nat} {rest : List Row} (h : Outside depth rest)
    (siblings : List Element) :
    Outside (depth + 1) (rows (Element.outlines depth siblings) ++ rest) := by
  intro row hrow
  cases siblings with
  | nil => exact Nat.lt_succ_of_lt (h row hrow)
  | cons child tail =>
    obtain ⟨first, below, hrows, hdepth⟩ := exists_rows_cons depth child tail
    rw [hrows] at hrow
    obtain rfl := Option.some.inj hrow
    omega

theorem Snapshot.rows_node (depth : Nat) (kind : Kind) (span full : Span)
    (inner tail : List Element) (rest : List Row) :
    rows (Element.outlines depth (.node (.mk kind span full inner) :: tail)) ++ rest =
      ⟨depth, kind, span, none⟩ :: (rows (Element.outlines (depth + 1) inner) ++
        (rows (Element.outlines depth tail) ++ rest)) := by
  simp [rows, Element.outlines, Node.outline, Row.ofEntry, Node.kind, Node.span]

/-- **Rows determine elements.** -/
theorem Element.eq_of_rows : (children others : List Element) → {depth offset : Nat} →
    {rest more : List Row} → Laid offset (Token.allChunks (Element.tokens children)) →
    Laid offset (Token.allChunks (Element.tokens others)) →
    (∀ below ∈ Element.preorders children, below.Fits) →
    (∀ below ∈ Element.preorders others, below.Fits) → Outside depth rest → Outside depth more →
    rows (Element.outlines depth children) ++ rest = rows (Element.outlines depth others) ++ more →
    children = others ∧ rest = more
  | [], [], _, _, _, _, _, _, _, _, _, _, heq => ⟨rfl, heq⟩
  | [], child :: tail, _, _, _, _, _, _, _, _, hrest, _, heq =>
    absurd heq (hrest.ne_append child tail _)
  | child :: tail, [], _, _, _, _, _, _, _, _, _, hmore, heq =>
    absurd heq.symm (hmore.ne_append child tail _)
  | .token _ :: _, .node (.mk ..) :: _, _, _, _, _, _, _, _, _, _, _, heq => by
    rw [rows_node] at heq
    cases heq
  | .node (.mk ..) :: _, .token _ :: _, _, _, _, _, _, _, _, _, _, _, heq => by
    rw [rows_node] at heq
    cases heq
  | .token one :: tail, .token other :: tail', _, _, _, _, h, hother, hfits, hfits', hrest,
      hmore, heq => by
    obtain ⟨hrow, hrows⟩ := List.cons.inj heq
    obtain ⟨htoken, hlaid⟩ := laid_append.mp h
    obtain ⟨htoken', hlaid'⟩ := laid_append.mp hother
    obtain ⟨-, hkind, hspan, hcontent⟩ := Row.mk.inj hrow
    obtain ⟨htext, hleading, htrailing⟩ := Content.mk.inj (Option.some.inj hcontent)
    have hlexeme : one.lexeme = other.lexeme := by
      rw [Token.lexeme, Token.lexeme, hkind, htext, hspan, hleading, htrailing]
    obtain rfl := Token.eq_of_lexeme_eq htoken htoken' hlexeme
    obtain ⟨rfl, rfl⟩ := Element.eq_of_rows tail tail' hlaid hlaid' hfits hfits' hrest hmore hrows
    exact ⟨rfl, rfl⟩
  | .node (.mk kind span full inner) :: tail, .node (.mk kind' span' full' inner') :: tail', _, _,
      _, _, h, hother, hfits, hfits', hrest, hmore, heq => by
    rw [rows_node, rows_node] at heq
    obtain ⟨hrow, hrows⟩ := List.cons.inj heq
    obtain ⟨-, rfl, rfl, -⟩ := Row.mk.inj hrow
    simp only [Element.tokens, Token.allChunks, List.flatMap_append] at h hother
    obtain ⟨hinner, hlaid⟩ := laid_append.mp h
    obtain ⟨hinner', hlaid'⟩ := laid_append.mp hother
    simp only [Element.preorders, Node.preorder, List.forall_mem_append, List.forall_mem_cons]
      at hfits hfits'
    obtain ⟨rfl, hbehind⟩ := Element.eq_of_rows inner inner' hinner hinner' hfits.1.2 hfits'.1.2
      (hrest.append tail) (hmore.append tail') hrows
    obtain ⟨rfl, rfl⟩ := Element.eq_of_rows tail tail' hlaid hlaid' hfits.2 hfits'.2 hrest hmore
      hbehind
    obtain rfl : full = full' := hfits.1.1.fullSpan_eq hfits'.1.1 rfl rfl
    exact ⟨rfl, rfl⟩

namespace Tree

/-- **A well laid tree is determined by its rows.** -/
theorem WellLaid.eq_of_rows {tree other : Tree} (h : tree.WellLaid) (hother : other.WellLaid)
    (heq : rows (tree.root.outline 0) = rows (other.root.outline 0)) : tree = other := by
  have hlaid : Laid 0 (Token.allChunks (Element.tokens [.node tree.root])) := by
    simpa [Element.tokens, tokens] using h.laid
  have hlaid' : Laid 0 (Token.allChunks (Element.tokens [.node other.root])) := by
    simpa [Element.tokens, tokens] using hother.laid
  have hroots := Element.eq_of_rows [.node tree.root] [.node other.root] hlaid hlaid'
    (by simpa [Element.preorders, ← nodes_eq] using h.fits)
    (by simpa [Element.preorders, ← nodes_eq] using hother.fits) (outside_nil 0) (outside_nil 0)
    (by simpa [Element.outlines] using heq)
  exact h.eq_of_root_eq hother (Element.node.inj (List.cons.inj hroots.1).1)

/-- **Faithful snapshots.**  What is cut off a snapshot is the last line break only, and trees
that were built without a refusal are equal exactly if their snapshots are. -/
theorem snapshot_faithful {calls others : List Builder.Call} {tree other : Tree}
    (h : ofCalls calls = .ok tree) (hother : ofCalls others = .ok other) :
    tree.snapshot.toList = (written tree).rdropWhile Text.isSpace ∧
      tree.snapshot.toList ++ ['\n'] = written tree ∧
      (tree.snapshot = other.snapshot ↔ tree = other) := by
  refine ⟨toList_snapshot_eq tree, toList_snapshot_append tree, fun heq => ?_, ?_⟩
  · have hrows := rows_eq_of_snapshot_eq heq
    exact (wellLaid_of_calls h).eq_of_rows (wellLaid_of_calls hother) hrows
  · rintro rfl
    rfl

/-- A token that imitates the end of a line, the trivia of another and a node without tokens;
the calls queue the trivia of the first token at different times. -/
theorem snapshot_faithful_imitation : ∃ tree other,
    ofCalls [.lead .whitespace "\u00a0", .start .compilationUnit,
        .token .identifier "a\"\n  Block@0..1 \"\\", .trail .multiLineComment "\" leading=[",
        .start .block, .finish, .finish] = .ok tree ∧
      ofCalls [.start .compilationUnit, .lead .whitespace "\u00a0",
        .token .identifier "a\"\n  Block@0..1 \"\\", .trail .multiLineComment "\" leading=[",
        .start .block, .finish, .finish] = .ok other ∧
      tree.snapshot.toList = (written tree).rdropWhile Text.isSpace ∧ tree = other := by
  have heval : ((ofCalls [.lead .whitespace "\u00a0", .start .compilationUnit,
        .token .identifier "a\"\n  Block@0..1 \"\\", .trail .multiLineComment "\" leading=[",
        .start .block, .finish, .finish]).toOption.bind fun tree =>
      (ofCalls [.start .compilationUnit, .lead .whitespace "\u00a0",
        .token .identifier "a\"\n  Block@0..1 \"\\", .trail .multiLineComment "\" leading=[",
        .start .block, .finish, .finish]).toOption.map fun other =>
      decide (tree.snapshot = other.snapshot)) = some true := by
    decide +kernel
  obtain ⟨tree, htree, hrest⟩ := Option.bind_eq_some_iff.mp heval
  obtain ⟨other, hother, hsame⟩ := Option.map_eq_some_iff.mp hrest
  obtain ⟨hcut, -, hfaithful⟩ :=
    snapshot_faithful (eq_ok_of_toOption htree) (eq_ok_of_toOption hother)
  exact ⟨tree, other, eq_ok_of_toOption htree, eq_ok_of_toOption hother, hcut,
    hfaithful.mp (of_decide_eq_true hsame)⟩

end Tree
end SpacingLint
