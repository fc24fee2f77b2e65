import SpacingLint.Position
import SpacingLint.Proofs.Text.Lines

/-! # Where an editor shows an offset

The line index of a text holds where its lines start, and halving finds the last line that
starts at or before an offset (`search_found`).  So the line of an offset is the number of line
feeds in front of the cut that the offset makes, and it starts behind the last of them
(`lineOf_ofText`).

The column counts UTF-16 code units up to a boundary of characters, and bytes up to an offset
inside a character.  On boundaries positions are exact and ordered (`position_of_boundary`).
With both units on one line the order can be lost: a span that starts inside a character may
start at a greater column than it stops at.  `isLE_range_iff` says exactly when it does.
-/
namespace SpacingLint

namespace Position

variable {p q : Position}

theorem compare_eq :
    compare p q = (compare p.line.toNat q.line.toNat).then
      (compare p.character.toNat q.character.toNat) := by
  rw [← UInt32.compare_eq_toNat_compare_toNat, ← UInt32.compare_eq_toNat_compare_toNat]
  rfl

theorem compare_eq_lt_iff :
    compare p q = .lt ↔ p.line.toNat < q.line.toNat ∨
      p.line.toNat = q.line.toNat ∧ p.character.toNat < q.character.toNat := by
  rw [compare_eq]
  rcases Nat.lt_trichotomy p.line.toNat q.line.toNat with h | h | h
  · simp [Nat.compare_eq_lt.mpr h, h]
  · simp [h, Nat.compare_eq_lt]
  · simp [Nat.compare_eq_gt.mpr h]
    omega

end Position

namespace LineIndex

open Text (bytes units lastLine closedLines)

variable {offset : Nat} {cs before after : List Char}

/-! ## Where lines start -/

theorem startsAfter_append (offset : Nat) (cs ds : List Char) :
    startsAfter offset (cs ++ ds) =
      startsAfter offset cs ++ startsAfter (offset + bytes cs) ds := by
  induction cs generalizing offset with
  | nil => rfl
  | cons c cs ih =>
    rw [List.cons_append, startsAfter, startsAfter, ih, Text.bytes_cons, Nat.add_assoc]
    split <;> rfl

/-- A line starts behind every line feed. -/
theorem length_startsAfter (offset : Nat) (cs : List Char) :
    (startsAfter offset cs).length = cs.count '\n' := by
  induction cs generalizing offset with
  | nil => rfl
  | cons c cs ih =>
    rw [startsAfter, List.count_cons]
    split
    · next h => simp [ih, h]
    · next h => simp [ih, h]

theorem bounds_of_mem_startsAfter {start : Nat} (h : start ∈ startsAfter offset cs) :
    offset < start ∧ start ≤ offset + bytes cs := by
  induction cs generalizing offset with
  | nil => cases h
  | cons c cs ih =>
    have hpos := Char.utf8Size_pos c
    rw [Text.bytes_cons]
    rw [startsAfter] at h
    split at h
    · rcases List.mem_cons.mp h with rfl | h
      · omega
      · have hbounds := ih h
        omega
    · have hbounds := ih h
      omega

/-- No line starts before the character that begins a text ends. -/
theorem le_of_mem_startsAfter {start : Nat} {c : Char}
    (h : start ∈ startsAfter offset (c :: cs)) : offset + c.utf8Size ≤ start := by
  rw [startsAfter] at h
  split at h
  · rcases List.mem_cons.mp h with rfl | h
    · exact Nat.le_refl _
    · exact Nat.le_of_lt (bounds_of_mem_startsAfter h).1
  · exact Nat.le_of_lt (bounds_of_mem_startsAfter h).1

/-- The last line to start is the one the text ends in. -/
theorem getLast?_starts (cs : List Char) :
    (0 :: startsAfter 0 cs).getLast? = some (bytes (closedLines cs)) := by
  induction cs using List.reverseRecOn with
  | nil => rfl
  | append_singleton cs c ih =>
    rw [startsAfter_append, ← List.cons_append]
    by_cases hc : c = '\n'
    · subst hc
      have hlines : closedLines (cs ++ ['\n']) = cs ++ ['\n'] :=
        List.rdropWhile_concat_neg _ _ _ (by simp)
      rw [hlines, Text.bytes_append, Nat.zero_add]
      exact List.getLast?_concat
    · have hlines : closedLines (cs ++ [c]) = closedLines cs :=
        Text.closedLines_append (by simpa using Ne.symm hc)
      rw [hlines, ← ih]
      simp [startsAfter, hc]

/-! ## The line of an offset -/

section Search

variable {index : LineIndex} {low high : Nat}

/-- **What halving finds** is a line that starts at or before the offset while the next one does
not, if there is a next one. -/
theorem search_found (hbounds : low < high) (hlow : index.startOf low ≤ offset)
    (hhigh : high = index.starts.size ∨ offset < index.startOf high) :
    let line := index.search offset low high
    line < high ∧ index.startOf line ≤ offset ∧
      (line + 1 = index.starts.size ∨ offset < index.startOf (line + 1)) := by
  fun_induction search index offset low high with
  | case1 low high hdone =>
    obtain rfl : high = low + 1 := by omega
    exact ⟨hbounds, hlow, hhigh⟩
  | case2 low high hmore middle hle ih =>
    have hmiddle : middle < high := by omega
    exact ih hmiddle hle hhigh
  | case3 low high hmore middle hgt ih =>
    have hmiddle : low < middle := by omega
    obtain ⟨hlt, hfound⟩ := ih hmiddle hlow (.inr (Nat.lt_of_not_le hgt))
    exact ⟨by omega, hfound⟩

theorem lineOf_found (hsize : 0 < index.starts.size) (hstart : index.startOf 0 ≤ offset) :
    index.lineOf offset < index.starts.size ∧ index.startOf (index.lineOf offset) ≤ offset ∧
      (index.lineOf offset + 1 = index.starts.size ∨
        offset < index.startOf (index.lineOf offset + 1)) :=
  search_found hsize hstart (.inl rfl)

variable {reached later : List Nat}

/-- What is asked of all lines up to some line holds of each of them. -/
theorem startOf_le (hstarts : index.starts.toList = reached ++ later)
    (hreached : ∀ start ∈ reached, start ≤ offset) {line : Nat} (hline : line < reached.length) :
    index.startOf line ≤ offset := by
  have hget : index.startOf line = reached[line] := by
    rw [startOf, Array.getD_eq_getD_getElem?, ← Array.getElem?_toList, hstarts,
      List.getElem?_append_left hline, List.getElem?_eq_getElem hline, Option.getD_some]
  exact hget ▸ hreached _ (List.getElem_mem hline)

theorem lt_startOf (hstarts : index.starts.toList = reached ++ later)
    (hlater : ∀ start ∈ later, offset < start) {line : Nat} (hline : reached.length ≤ line)
    (hbounds : line < index.starts.size) : offset < index.startOf line := by
  have hsize : index.starts.size = reached.length + later.length := by
    rw [← Array.length_toList, hstarts, List.length_append]
  have hlt : line - reached.length < later.length := by omega
  have hget : index.startOf line = later[line - reached.length] := by
    rw [startOf, Array.getD_eq_getD_getElem?, ← Array.getElem?_toList, hstarts,
      List.getElem?_append_right hline, List.getElem?_eq_getElem hlt, Option.getD_some]
  exact hget ▸ hlater _ (List.getElem_mem hlt)

/-- **The line of an offset** is the last of those that start at or before it. -/
theorem lineOf_eq (hstarts : index.starts.toList = reached ++ later) (hne : reached ≠ [])
    (hreached : ∀ start ∈ reached, start ≤ offset) (hlater : ∀ start ∈ later, offset < start) :
    index.lineOf offset = reached.length - 1 := by
  have hpos := List.length_pos_iff.mpr hne
  have hsize : index.starts.size = reached.length + later.length := by
    rw [← Array.length_toList, hstarts, List.length_append]
  obtain ⟨hbounds, hle, hnext⟩ := lineOf_found (by omega : 0 < index.starts.size)
    (startOf_le hstarts hreached hpos)
  generalize index.lineOf offset = line at hbounds hle hnext ⊢
  have hbefore : line < reached.length := by
    by_contra hnot
    have hlt := lt_startOf hstarts hlater (Nat.le_of_not_lt hnot) hbounds
    omega
  have hlast : ¬ line + 1 < reached.length := by
    intro hlt
    have hle := startOf_le hstarts hreached hlt
    omega
  omega

end Search

/-! ## Lines and columns of a text -/

section Text

variable {text : String}

/-- The lines that start in front of a cut start at or before the offset, and no others do. -/
theorem starts_cutAt (h : Text.CutAt text.toList offset before after) :
    (ofText text).starts.toList =
        (0 :: startsAfter 0 before) ++ startsAfter (bytes before) after ∧
      (∀ start ∈ 0 :: startsAfter 0 before, start ≤ offset) ∧
      ∀ start ∈ startsAfter (bytes before) after, offset < start := by
  refine ⟨?_, ?_, ?_⟩
  · rw [ofText, ← h.spelled, startsAfter_append, Nat.zero_add]
    rfl
  · intro start hstart
    rcases List.mem_cons.mp hstart with rfl | hstart
    · exact Nat.zero_le _
    · have hle := (bounds_of_mem_startsAfter hstart).2
      have hreached := h.reached
      omega
  · intro start hstart
    cases after with
    | nil => cases hstart
    | cons c after =>
      have hlt := h.beyond c rfl
      have hle := le_of_mem_startsAfter hstart
      omega

/-- **The line of an offset** is the number of line feeds before it, and it starts behind the
last of them. -/
theorem lineOf_ofText (h : Text.CutAt text.toList offset before after) :
    (ofText text).lineOf offset = before.count '\n' ∧
      (ofText text).startOf ((ofText text).lineOf offset) = bytes (closedLines before) := by
  obtain ⟨hstarts, hreached, hlater⟩ := starts_cutAt h
  have hline := lineOf_eq hstarts (List.cons_ne_nil _ _) hreached hlater
  rw [List.length_cons, length_startsAfter, Nat.add_sub_cancel] at hline
  refine ⟨hline, ?_⟩
  have hlast := getLast?_starts before
  rw [List.getLast?_eq_getElem?, List.length_cons, length_startsAfter, Nat.add_sub_cancel] at hlast
  have hlt : before.count '\n' < (0 :: startsAfter 0 before).length := by
    rw [List.length_cons, length_startsAfter]
    omega
  rw [hline, startOf, Array.getD_eq_getD_getElem?, ← Array.getElem?_toList, hstarts,
    List.getElem?_append_left hlt, hlast, Option.getD_some]

/-! ## Positions -/

/-- **The column of an offset**: the code units in front of it on its line, or the bytes if it
lies inside a character. -/
def column (before : List Char) (offset : Nat) : Nat :=
  if bytes before = offset then units (lastLine before) else offset - bytes (closedLines before)

/-- The text from the start of its line is cut at an offset, if that is a boundary. -/
theorem slice?_line (h : Text.CutAt cs offset before after) :
    Text.slice? cs (bytes (closedLines before)) offset =
      if bytes before = offset then some (lastLine before) else none := by
  split
  · next hoffset =>
    have hcs : cs = closedLines before ++ lastLine before ++ after := by
      rw [Text.closedLines_append_lastLine, h.spelled]
    rw [hcs, ← hoffset, ← Text.bytes_closedLines_add before]
    exact Text.slice?_append ..
  · next hoffset =>
    refine Option.eq_none_iff_forall_ne_some.mpr fun piece hpiece => hoffset ?_
    obtain ⟨front, back, rfl, -, hstop⟩ := Text.exists_of_slice? hpiece
    exact h.boundary_iff.mp ⟨front ++ piece, back, rfl, hstop⟩

theorem position_eq (h : Text.CutAt text.toList offset before after) :
    (ofText text).position text offset =
      ⟨UInt32.ofNat (before.count '\n'), UInt32.ofNat (column before offset)⟩ := by
  obtain ⟨hline, hstart⟩ := lineOf_ofText h
  rw [hline] at hstart
  simp only [position, lineColumn, hline, hstart, slice?_line h, column]
  by_cases hoffset : bytes before = offset
  · rw [if_pos hoffset, if_pos hoffset]
  · rw [if_neg hoffset, if_neg hoffset]

/-- A text shorter than `2 ^ 32` bytes is shown without loss. -/
theorem toNat_position (hsize : text.utf8ByteSize < UInt32.size)
    (hoffset : offset ≤ text.utf8ByteSize) (h : Text.CutAt text.toList offset before after) :
    ((ofText text).position text offset).line.toNat = before.count '\n' ∧
      ((ofText text).position text offset).character.toNat = column before offset := by
  have hcount := Text.count_le_bytes '\n' before
  have hunits := Text.units_le_bytes (lastLine before)
  have hlines := Text.bytes_closedLines_add before
  have hreached := h.reached
  have hcolumn : column before offset ≤ offset := by
    unfold column
    split <;> omega
  rw [position_eq h]
  constructor
  · exact UInt32.toNat_ofNat_of_lt' (by omega)
  · exact UInt32.toNat_ofNat_of_lt' (by omega)

section Order

variable {a b : Nat} {mid after' : List Char}

/-- An offset behind a line feed has a later position than one before it. -/
theorem position_lt_of_lineFeed (hsize : text.utf8ByteSize < UInt32.size) (hle : a ≤ b)
    (hb : b ≤ text.utf8ByteSize) (hcut : Text.CutAt text.toList a before after)
    (hcut' : Text.CutAt text.toList b (before ++ mid) after') (hmem : '\n' ∈ mid) :
    compare ((ofText text).position text a) ((ofText text).position text b) = .lt := by
  obtain ⟨hline, -⟩ := toNat_position hsize (Nat.le_trans hle hb) hcut
  obtain ⟨hline', -⟩ := toNat_position hsize hb hcut'
  have hpos := List.count_pos_iff.mpr hmem
  rw [Position.compare_eq_lt_iff, hline, hline', List.count_append]
  omega

/-- Positions on one line are ordered as their columns. -/
theorem compare_position (hsize : text.utf8ByteSize < UInt32.size) (hle : a ≤ b)
    (hb : b ≤ text.utf8ByteSize) (hcut : Text.CutAt text.toList a before after)
    (hcut' : Text.CutAt text.toList b (before ++ mid) after') (hmem : '\n' ∉ mid) :
    compare ((ofText text).position text a) ((ofText text).position text b) =
      compare (column before a) (column (before ++ mid) b) := by
  obtain ⟨hline, hcolumn⟩ := toNat_position hsize (Nat.le_trans hle hb) hcut
  obtain ⟨hline', hcolumn'⟩ := toNat_position hsize hb hcut'
  rw [Position.compare_eq, hline, hline', hcolumn, hcolumn', List.count_append,
    List.count_eq_zero.mpr hmem, Nat.add_zero, Nat.compare_eq_eq.mpr rfl]
  rfl

end Order

theorem le_of_boundary (h : Text.Boundary text.toList offset) : offset ≤ text.utf8ByteSize := by
  obtain ⟨before, after, htext, rfl⟩ := h
  rw [Text.utf8ByteSize_eq_bytes, htext, Text.bytes_append]
  omega

/-- **Positions are exact**: line and column of a boundary count the line feeds before it and the
UTF-16 code units behind the last of them, and a later boundary has a later position. -/
theorem position_of_boundary (hsize : text.utf8ByteSize < UInt32.size) :
    (∀ before after, text.toList = before ++ after →
      let place := (ofText text).position text (bytes before)
      place.line.toNat = before.count '\n' ∧
        place.character.toNat = (Text.utf16 (lastLine before)).length) ∧
    ∀ a b, Text.Boundary text.toList a → Text.Boundary text.toList b → a < b →
      compare ((ofText text).position text a) ((ofText text).position text b) = .lt := by
  constructor
  · intro before after htext
    have hcut := Text.CutAt.of_append before after
    rw [← htext] at hcut
    have hplace := toNat_position hsize (le_of_boundary ⟨before, after, htext, rfl⟩) hcut
    rw [column, if_pos rfl, ← Text.length_utf16] at hplace
    exact hplace
  · intro a b ha hb hlt
    obtain ⟨before, after, hcut⟩ := Text.exists_cutAt text.toList a
    obtain ⟨before', after', hcut'⟩ := Text.exists_cutAt text.toList b
    have ha := hcut.boundary_iff.mp ha
    have hle := le_of_boundary hb
    have hb := hcut'.boundary_iff.mp hb
    obtain ⟨mid, rfl, -⟩ := hcut.mono hcut' (Nat.le_of_lt hlt)
    by_cases hmem : '\n' ∈ mid
    · exact position_lt_of_lineFeed hsize (Nat.le_of_lt hlt) hle hcut hcut' hmem
    · rw [compare_position hsize (Nat.le_of_lt hlt) hle hcut hcut' hmem, Nat.compare_eq_lt,
        column, column, if_pos ha, if_pos hb, Text.lastLine_append hmem, Text.units_append]
      have hne : mid ≠ [] := by
        rintro rfl
        rw [List.append_nil] at hb
        omega
      have hpos := Text.units_pos hne
      omega

/-- A pair of surrogates is two columns wide, and the line feed behind it still on its line. -/
theorem position_of_boundary_surrogates :
    let text := "😀\né"
    text.utf8ByteSize < UInt32.size ∧
      ((ofText text).position text 5).line.toNat = ['😀', '\n'].count '\n' ∧
      ((ofText text).position text 4).character.toNat = (Text.utf16 (lastLine ['😀'])).length ∧
      compare ((ofText text).position text 4) ((ofText text).position text 5) = .lt := by
  have hsize : "😀\né".utf8ByteSize < UInt32.size := by decide
  obtain ⟨hexact, horder⟩ := position_of_boundary hsize
  exact ⟨hsize, (hexact ['😀', '\n'] ['é'] rfl).1, (hexact ['😀'] ['\n', 'é'] rfl).2,
    horder 4 5 ⟨['😀'], ['\n', 'é'], rfl, rfl⟩ ⟨['😀', '\n'], ['é'], rfl, rfl⟩ (by decide)⟩

/-! ## Ranges -/

/-- A span overtakes itself if it starts inside a character and stops on a boundary that is
fewer code units into its line than the start is bytes. -/
def Overtakes (cs : List Char) (span : Span) : Prop :=
  ¬ Text.Boundary cs span.start ∧ ∃ before after, cs = before ++ after ∧
    bytes before = span.stop ∧
    bytes (closedLines before) + (Text.utf16 (lastLine before)).length < span.start

theorem overtakes_iff {span : Span} {before' after' : List Char}
    (h : Text.CutAt cs span.start before after) (h' : Text.CutAt cs span.stop before' after') :
    Overtakes cs span ↔ bytes before ≠ span.start ∧ bytes before' = span.stop ∧
      bytes (closedLines before') + units (lastLine before') < span.start := by
  rw [Overtakes, h.boundary_iff]
  refine and_congr_right fun _ => ?_
  constructor
  · rintro ⟨front, back, rfl, hstop, hlt⟩
    have hfront := Text.CutAt.of_append front back
    rw [hstop] at hfront
    obtain rfl := hfront.unique h'
    exact ⟨hstop, Text.length_utf16 _ ▸ hlt⟩
  · rintro ⟨hstop, hlt⟩
    exact ⟨before', after', h'.spelled.symm, hstop, (Text.length_utf16 _).symm ▸ hlt⟩

/-- **A range is in order** unless the span overtakes itself. -/
theorem isLE_range_iff (hsize : text.utf8ByteSize < UInt32.size) {span : Span}
    (hspan : span.stop ≤ text.utf8ByteSize) :
    (compare ((ofText text).range text span).start ((ofText text).range text span).stop).isLE =
      true ↔ ¬ Overtakes text.toList span := by
  obtain ⟨before, after, hcut⟩ := Text.exists_cutAt text.toList span.start
  obtain ⟨before', after', hcut'⟩ := Text.exists_cutAt text.toList span.stop
  obtain ⟨mid, rfl, rfl⟩ := hcut.mono hcut' span.start_le_stop
  rw [overtakes_iff hcut hcut', range]
  by_cases hmem : '\n' ∈ mid
  · -- The line that the span stops in starts behind its start.
    have hlt := hcut.lt_closedLines hmem
    rw [position_lt_of_lineFeed hsize span.start_le_stop hspan hcut hcut' hmem]
    refine iff_of_true rfl fun hovertakes => ?_
    omega
  · have hlines := Text.bytes_closedLines_add before
    have hunits := Text.units_le_bytes (lastLine before)
    have hle := span.start_le_stop
    have hreached := hcut.reached
    have hreached' := hcut'.reached
    rw [compare_position hsize hle hspan hcut hcut' hmem, Nat.isLE_compare, column, column,
      Text.closedLines_append hmem, Text.lastLine_append hmem, Text.units_append]
    -- A start inside a character is a byte column, which may lie beyond a column in code units.
    split <;> split <;> omega

/-- The last byte of a character of four bytes and two code units: it stops at the column two
and starts at the column three. -/
theorem isLE_range_iff_last :
    let text := "😀"
    let span : Span := ⟨3, 4, by decide⟩
    text.utf8ByteSize < UInt32.size ∧ span.stop ≤ text.utf8ByteSize ∧ Overtakes text.toList span ∧
      ((compare ((ofText text).range text span).start
        ((ofText text).range text span).stop).isLE = true ↔ ¬ Overtakes text.toList span) := by
  have hsize : "😀".utf8ByteSize < UInt32.size := by decide
  have hstop : 4 ≤ "😀".utf8ByteSize := by decide
  have hinside : Text.CutAt "😀".toList 3 [] ['😀'] := by
    refine ⟨rfl, by decide, fun c hc => ?_⟩
    obtain rfl := Option.some.inj hc
    decide
  have hstart : ¬ Text.Boundary "😀".toList 3 := by
    rw [hinside.boundary_iff]
    decide
  exact ⟨hsize, hstop, ⟨hstart, ['😀'], [], rfl, rfl, by decide⟩, isLE_range_iff hsize hstop⟩

/-- There are spans within the bounds of a text whose range is back to front. -/
theorem not_isLE_range :
    ¬ ∀ (text : String) (span : Span), text.utf8ByteSize < UInt32.size →
      span.stop ≤ text.utf8ByteSize →
      (compare ((ofText text).range text span).start
        ((ofText text).range text span).stop).isLE = true := by
  intro h
  have hrange := h "😀" ⟨3, 4, by decide⟩ (by decide) (by decide)
  revert hrange
  decide +kernel

end Text

end LineIndex
end SpacingLint
