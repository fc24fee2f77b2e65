import Mathlib.Data.Prod.Lex
import SpacingLint.Proofs.Text.Octets
import SpacingLint.Proofs.Text.Positions

/-! # Lines and columns in bytes

Line and column of an offset can be read off the bytes of a text.  The line is the number of line
feeds below the offset, the column is how far the offset lies behind the last of them, and the
offset may lie inside a character or past the end (`LineIndex.lineColumn_ofText`).

The index finds the line by halving.  A search that tells a hit from a miss does as well: the line
is the one found to start at the offset, or else the one in front of the place where the offset
would have to be put in (`LineIndex.lineColumn?`).  Lines start one behind the other and the first
one starts at zero, so such an answer always leads to a line, and one that does not start behind
the offset.
-/
namespace SpacingLint
namespace LineIndex

open Text (bytes closedLines lastLine octets utf8 lineFeed)

variable {offset : Nat} {cs before after : List Char} {text : String}

/-! ## Lines in bytes -/

/-- **Where the line of an offset starts** among some bytes: just after the last line feed at a
place below the offset, or at zero if there is none. -/
structure StartsLine (octets : List UInt8) (offset start : Nat) : Prop where
  /-- A line feed stands right before it, or it is the start of all. -/
  opened : start = 0 ∨ ∃ place < offset, start = place + 1 ∧ octets[place]? = some lineFeed
  /-- There is no line feed from there up to the offset. -/
  last : ∀ place, start ≤ place → place < offset → octets[place]? ≠ some lineFeed

theorem StartsLine.le {octets : List UInt8} {start : Nat} (h : StartsLine octets offset start) :
    start ≤ offset := by
  rcases h.opened with rfl | ⟨place, hlt, rfl, -⟩
  · exact Nat.zero_le _
  · exact hlt

theorem lineFeed_not_mem_lastLine (cs : List Char) : '\n' ∉ lastLine cs := by
  intro hmem
  simpa using List.mem_rtakeWhile_imp hmem

/-- The lines that are closed end with a line feed, if there are any. -/
theorem closedLines_cases (cs : List Char) :
    closedLines cs = [] ∨ ∃ init, closedLines cs = init ++ ['\n'] := by
  by_cases hnil : closedLines cs = []
  · exact .inl hnil
  · have hlast := List.rdropWhile_last_not _ _ hnil
    have hfeed : (closedLines cs).getLast hnil = '\n' := by simpa [closedLines] using hlast
    refine .inr ⟨(closedLines cs).dropLast, ?_⟩
    rw [← hfeed, List.dropLast_append_getLast]

/-- The line of an offset starts where the lines closed in front of it end. -/
theorem startsLine_closedLines (h : Text.CutAt text.toList offset before after) :
    StartsLine (octets text) offset (bytes (closedLines before)) := by
  have hlines := Text.closedLines_append_lastLine before
  have hsize := Text.bytes_closedLines_add before
  have hreached := h.reached
  constructor
  · rcases closedLines_cases before with hnil | ⟨init, hinit⟩
    · exact .inl (by rw [hnil]; rfl)
    · have hbytes : bytes (closedLines before) = bytes init + 1 := by
        rw [hinit, Text.bytes_append]
        rfl
      refine .inr ⟨bytes init, by omega, hbytes, ?_⟩
      rw [Text.octets_eq, ← h.spelled, ← hlines, hinit, List.append_assoc, List.append_assoc,
        Text.utf8_append, ← Text.length_utf8, List.getElem?_append_right (Nat.le_refl _),
        Nat.sub_self]
      rfl
  · intro place hge hlt hfeed
    -- What lies between the start of the line and the offset has no line feed.
    have htake : (octets text).take offset = utf8 (closedLines before) ++
        (utf8 (lastLine before) ++ (utf8 after).take (offset - bytes before)) := by
      rw [h.take_octets, ← List.append_assoc, ← Text.utf8_append, hlines]
    rw [← List.getElem?_take_of_lt hlt, htake,
      List.getElem?_append_right (by rw [Text.length_utf8]; exact hge)] at hfeed
    rcases List.mem_append.mp (List.mem_of_getElem? hfeed) with hmem | hmem
    · have hcount := Text.count_utf8 (lastLine before)
      rw [List.count_eq_zero.mpr (lineFeed_not_mem_lastLine before)] at hcount
      exact List.count_eq_zero.mp hcount hmem
    · exact h.lineFeed_not_mem_take hmem

/-! ## A search that tells hits from misses -/

/-- **What a search of ascending offsets may answer**: a place where the offset stands, or else
the place where it would have to be put in. -/
inductive Answers (starts : List Nat) (offset : Nat) : Except Nat Nat → Prop
  | hit {earlier later : List Nat} (hstarts : starts = earlier ++ offset :: later) :
      Answers starts offset (.ok earlier.length)
  | miss {earlier later : List Nat} (hstarts : starts = earlier ++ later)
      (hearlier : ∀ start ∈ earlier, start < offset) (hlater : ∀ start ∈ later, offset < start) :
      Answers starts offset (.error earlier.length)

/-- The line that an answer leads to: the one that was hit, or the one in front of a miss. -/
def lineBy : Except Nat Nat → Nat
  | .ok place => place
  | .error place => place - 1

/-- Line and column of an offset by the answer of a search; `none` if the answer leads to no line,
or to one that starts behind the offset. -/
def lineColumn? (index : LineIndex) (offset : Nat) (answer : Except Nat Nat) :
    Option (Nat × Nat) := do
  let start ← index.starts[lineBy answer]?
  if start ≤ offset then some (lineBy answer, offset - start) else none

/-- Every search has an answer. -/
theorem exists_answers {starts reached later : List Nat} (hstarts : starts = reached ++ later)
    (hreached : ∀ start ∈ reached, start ≤ offset) (hlater : ∀ start ∈ later, offset < start) :
    ∃ answer, Answers starts offset answer := by
  by_cases hmem : offset ∈ starts
  · obtain ⟨earlier, behind, heq⟩ := List.append_of_mem hmem
    exact ⟨_, .hit heq⟩
  · refine ⟨_, .miss hstarts (fun start hstart => ?_) hlater⟩
    refine Nat.lt_of_le_of_ne (hreached start hstart) ?_
    rintro rfl
    exact hmem (hstarts ▸ List.mem_append_left _ hstart)

section Search

variable {index : LineIndex} {answer : Except Nat Nat}

/-- **Every answer leads to the line of the offset**, if lines start one behind the other. -/
theorem Answers.lineOf_eq (h : Answers index.starts.toList offset answer)
    (hascending : index.starts.toList.Pairwise (· < ·)) (hzero : 0 ∈ index.starts.toList) :
    index.lineOf offset = lineBy answer := by
  cases h with
  | @hit earlier later hstarts =>
    rw [hstarts, List.pairwise_append, List.pairwise_cons] at hascending
    obtain ⟨-, ⟨hlater, -⟩, hearlier⟩ := hascending
    have hstarts' : index.starts.toList = (earlier ++ [offset]) ++ later := by simp [hstarts]
    rw [LineIndex.lineOf_eq hstarts' (by simp) ?_ hlater, List.length_append]
    · rfl
    · intro start hstart
      rcases List.mem_append.mp hstart with hstart | hstart
      · exact Nat.le_of_lt (hearlier start hstart offset (List.mem_cons_self ..))
      · exact Nat.le_of_eq (List.mem_singleton.mp hstart)
  | @miss earlier later hstarts hearlier hlater =>
    have hne : earlier ≠ [] := by
      rintro rfl
      have hlt := hlater 0 (by rw [hstarts] at hzero; exact hzero)
      omega
    exact LineIndex.lineOf_eq hstarts hne (fun start hstart => Nat.le_of_lt (hearlier start hstart))
      hlater

/-- **Every answer gives line and column.** -/
theorem Answers.lineColumn?_eq (h : Answers index.starts.toList offset answer)
    (hascending : index.starts.toList.Pairwise (· < ·))
    (hzero : index.starts.toList.head? = some 0) :
    index.lineColumn? offset answer = some (index.lineColumn offset) := by
  have hmem := List.mem_of_head? hzero
  have hsize : 0 < index.starts.size := by
    rw [← Array.length_toList]
    exact List.length_pos_of_mem hmem
  have hfirst : index.startOf 0 ≤ offset := by
    rw [startOf, Array.getD_eq_getD_getElem?, ← Array.getElem?_toList, ← List.head?_eq_getElem?,
      hzero]
    exact Nat.zero_le _
  obtain ⟨hlt, hle, -⟩ := lineOf_found hsize hfirst
  have hstart :
      index.starts[index.lineOf offset]? = some (index.startOf (index.lineOf offset)) := by
    rw [startOf, Array.getD_eq_getD_getElem?, Array.getElem?_eq_getElem hlt, Option.getD_some]
  rw [lineColumn?, ← h.lineOf_eq hascending hmem, hstart, lineColumn]
  exact if_pos hle

end Search

/-! ## Lines and columns of a text -/

/-- Lines start one behind the other. -/
theorem pairwise_startsAfter (offset : Nat) (cs : List Char) :
    (startsAfter offset cs).Pairwise (· < ·) := by
  induction cs generalizing offset with
  | nil => exact .nil
  | cons c cs ih =>
    rw [startsAfter]
    split
    · exact List.pairwise_cons.mpr ⟨fun start hstart => (bounds_of_mem_startsAfter hstart).1, ih _⟩
    · exact ih _

theorem pairwise_starts (text : String) : (ofText text).starts.toList.Pairwise (· < ·) :=
  List.pairwise_cons.mpr
    ⟨fun _ hstart => (bounds_of_mem_startsAfter hstart).1, pairwise_startsAfter 0 text.toList⟩

theorem lineColumn_eq (h : Text.CutAt text.toList offset before after) :
    (ofText text).lineColumn offset =
      (before.count '\n', offset - bytes (closedLines before)) := by
  obtain ⟨hline, hstart⟩ := lineOf_ofText h
  rw [lineColumn, hstart, hline]

/-- **Offsets are told apart by line and column**, and ordered as they are. -/
theorem strictMono_lineColumn (text : String) :
    StrictMono fun offset => toLex ((ofText text).lineColumn offset) := by
  intro a b hlt
  obtain ⟨before, after, hcut⟩ := Text.exists_cutAt text.toList a
  obtain ⟨_, after', hcut'⟩ := Text.exists_cutAt text.toList b
  obtain ⟨mid, rfl, rfl⟩ := hcut.mono hcut' (Nat.le_of_lt hlt)
  simp only [lineColumn_eq hcut, lineColumn_eq hcut', Prod.Lex.toLex_lt_toLex, List.count_append]
  by_cases hmem : '\n' ∈ mid
  · have hpos := List.count_pos_iff.mpr hmem
    omega
  · have hlines := Text.bytes_closedLines_add before
    have hreached := hcut.reached
    rw [List.count_eq_zero.mpr hmem, Text.closedLines_append hmem]
    omega

/-- **Line and column in bytes.**  The line of an offset is the number of line feeds below it, the
column its distance from where its line starts; a search that tells hits from misses finds the
same, whatever it answers; and a greater offset has a greater line, or a greater column on the
same line. -/
theorem lineColumn_ofText (text : String) :
    (∀ offset, ∃ start, StartsLine (octets text) offset start ∧ start ≤ offset ∧
      (ofText text).lineColumn offset =
        (((octets text).take offset).count lineFeed, offset - start) ∧
      (∃ answer, Answers (ofText text).starts.toList offset answer) ∧
      ∀ answer, Answers (ofText text).starts.toList offset answer →
        (ofText text).lineColumn? offset answer = some ((ofText text).lineColumn offset)) ∧
    StrictMono fun offset => toLex ((ofText text).lineColumn offset) := by
  refine ⟨fun offset => ?_, strictMono_lineColumn text⟩
  obtain ⟨before, after, hcut⟩ := Text.exists_cutAt text.toList offset
  obtain ⟨hstarts, hreached, hlater⟩ := starts_cutAt hcut
  have hstart := startsLine_closedLines hcut
  have hanswers := exists_answers hstarts hreached hlater
  refine ⟨_, hstart, hstart.le, ?_, hanswers, fun answer hanswer => ?_⟩
  · rw [lineColumn_eq hcut, hcut.count_take]
  · exact hanswer.lineColumn?_eq (pairwise_starts text) rfl

/-- Inside a character behind an empty line, where a search misses, and past the end. -/
theorem lineColumn_ofText_inside :
    let index := ofText "a\n\n😀"
    Answers index.starts.toList 5 (.error 3) ∧ index.lineColumn? 5 (.error 3) = some (2, 2) ∧
      toLex (index.lineColumn 5) < toLex (index.lineColumn 100) ∧
      index.lineColumn 100 = (2, 97) := by
  have hmiss : Answers (ofText "a\n\n😀").starts.toList 5 (.error [0, 2, 3].length) :=
    .miss (by decide +kernel : _ = [0, 2, 3] ++ []) (by decide) nofun
  obtain ⟨hplaces, horder⟩ := lineColumn_ofText "a\n\n😀"
  obtain ⟨_, _, _, _, _, hsearch⟩ := hplaces 5
  refine ⟨hmiss, (hsearch _ hmiss).trans ?_, horder (by decide), ?_⟩
  · decide +kernel
  · decide +kernel

end LineIndex
end SpacingLint
