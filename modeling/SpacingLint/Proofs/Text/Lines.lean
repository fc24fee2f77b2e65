import Mathlib.Data.List.DropRight
import SpacingLint.Text.Measure

/-! # Cuts and lines of a text

An offset cuts a text in two, unless it lies inside a character; then the character belongs to
what is behind (`CutAt`).  Of two offsets the later one cuts off more (`CutAt.mono`).

What is in front of a cut consists of lines that a line feed ends and of the line it lies in
(`closedLines`, `lastLine`).  More characters on the same line go to that line, and behind a
line feed another line begins.

The last section measures a text in UTF-16 by writing it in that form (`utf16`).
-/
namespace SpacingLint
namespace Text

variable {cs mid before after before' after' : List Char} {offset : Nat}

/-! ## Cuts -/

/-- An offset between two characters of a text, or at one of its ends. -/
def Boundary (cs : List Char) (offset : Nat) : Prop :=
  ∃ before after, cs = before ++ after ∧ bytes before = offset

/-- The characters of a text that end at or before an offset, and those after them. -/
structure CutAt (cs : List Char) (offset : Nat) (before after : List Char) : Prop where
  /-- They make up the text. -/
  spelled : before ++ after = cs
  /-- The first ones end at or before the offset. -/
  reached : bytes before ≤ offset
  /-- The next one would not. -/
  beyond : ∀ c ∈ after.head?, offset < bytes before + c.utf8Size

theorem exists_cutAt (cs : List Char) (offset : Nat) :
    ∃ before after, CutAt cs offset before after := by
  induction cs generalizing offset with
  | nil => exact ⟨[], [], rfl, Nat.zero_le _, nofun⟩
  | cons c cs ih =>
    by_cases hc : c.utf8Size ≤ offset
    · obtain ⟨before, after, rfl, hreached, hbeyond⟩ := ih (offset - c.utf8Size)
      refine ⟨c :: before, after, rfl, by rw [bytes_cons]; omega, ?_⟩
      intro d hd
      have hlt := hbeyond d hd
      rw [bytes_cons]
      omega
    · refine ⟨[], c :: cs, rfl, Nat.zero_le _, ?_⟩
      intro d hd
      obtain rfl := Option.some.inj hd
      rw [bytes_nil]
      omega

namespace CutAt

/-- A text is cut at every boundary. -/
theorem of_append (before after : List Char) :
    CutAt (before ++ after) (bytes before) before after := by
  refine ⟨rfl, Nat.le_refl _, ?_⟩
  intro c hc
  have hpos := Char.utf8Size_pos c
  omega

/-- **A later cut is a cut of what is behind an earlier one.** -/
theorem mono {offset' : Nat} (h : CutAt cs offset before after)
    (h' : CutAt cs offset' before' after') (hle : offset ≤ offset') :
    ∃ mid, before' = before ++ mid ∧ after = mid ++ after' := by
  have heq : before ++ after = before' ++ after' := h.spelled.trans h'.spelled.symm
  rcases List.append_eq_append_iff.mp heq with ⟨mid, hbefore, hafter⟩ | ⟨mid, rfl, hafter⟩
  · exact ⟨mid, hbefore, hafter⟩
  · cases mid with
    | nil => exact ⟨[], by simp, hafter.symm⟩
    | cons d mid =>
      -- The character behind the later cut would end before the earlier one.
      have hlt := h'.beyond d (by rw [hafter]; rfl)
      have hreached := h.reached
      rw [bytes_append, bytes_cons] at hreached
      omega

theorem unique (h : CutAt cs offset before after) (h' : CutAt cs offset before' after') :
    before = before' := by
  obtain ⟨mid, rfl, hafter⟩ := h.mono h' (Nat.le_refl _)
  obtain ⟨back, hbefore, -⟩ := h'.mono h (Nat.le_refl _)
  have hnil : mid ++ back = [] := by
    rw [List.append_assoc] at hbefore
    exact List.self_eq_append_right.mp hbefore
  rw [(List.append_eq_nil_iff.mp hnil).1, List.append_nil]

/-- A text is cut at an offset exactly where that is a boundary. -/
theorem boundary_iff (h : CutAt cs offset before after) :
    Boundary cs offset ↔ bytes before = offset := by
  constructor
  · rintro ⟨front, back, rfl, rfl⟩
    rw [h.unique (of_append front back)]
  · rintro rfl
    exact ⟨before, after, h.spelled.symm, rfl⟩

end CutAt

/-! ## Lines -/

/-- The line that a text ends in: what stands behind its last line feed. -/
def lastLine (cs : List Char) : List Char := cs.rtakeWhile (· ≠ '\n')

/-- The lines of a text that a line feed ends. -/
def closedLines (cs : List Char) : List Char := cs.rdropWhile (· ≠ '\n')

theorem closedLines_append_lastLine (cs : List Char) : closedLines cs ++ lastLine cs = cs :=
  List.rdropWhile_append_rtakeWhile

theorem bytes_closedLines_add (cs : List Char) :
    bytes (closedLines cs) + bytes (lastLine cs) = bytes cs := by
  rw [← bytes_append, closedLines_append_lastLine]

/-- What comes without line feed goes to the line a text ends in. -/
theorem lastLine_append (h : '\n' ∉ mid) : lastLine (cs ++ mid) = lastLine cs ++ mid := by
  have hmid : ∀ c ∈ mid.reverse, (c ≠ '\n' : Bool) = true := by
    intro c hc
    exact decide_eq_true fun heq => h (heq ▸ List.mem_reverse.mp hc)
  rw [lastLine, List.rtakeWhile, List.reverse_append, List.takeWhile_append_of_pos hmid,
    List.reverse_append, List.reverse_reverse]
  rfl

theorem closedLines_append (h : '\n' ∉ mid) : closedLines (cs ++ mid) = closedLines cs := by
  have hlines := closedLines_append_lastLine (cs ++ mid)
  rw [lastLine_append h, ← List.append_assoc] at hlines
  have hfront : closedLines (cs ++ mid) ++ lastLine cs = closedLines cs ++ lastLine cs := by
    rw [List.append_cancel_right hlines, closedLines_append_lastLine]
  exact List.append_cancel_right hfront

/-- Behind a line feed all lines before it are closed. -/
theorem closedLines_append_of_mem (cs : List Char) (h : '\n' ∈ mid) :
    closedLines (cs ++ mid) = cs ++ closedLines mid ∧ closedLines mid ≠ [] := by
  have hne : mid.reverse.dropWhile (· ≠ '\n') ≠ [] := by
    intro hnil
    have hall := List.dropWhile_eq_nil_iff.mp hnil '\n' (List.mem_reverse.mpr h)
    simp at hall
  constructor
  · simp only [closedLines, List.rdropWhile, List.reverse_append, List.dropWhile_append,
      List.isEmpty_iff, if_neg hne, List.reverse_reverse]
  · simpa [closedLines, List.rdropWhile] using hne

/-- A line feed in the text behind a cut closes a line behind the offset. -/
theorem CutAt.lt_closedLines (h : CutAt cs offset before (mid ++ after)) (hmem : '\n' ∈ mid) :
    offset < bytes (closedLines (before ++ mid)) := by
  obtain ⟨hlines, hne⟩ := closedLines_append_of_mem before hmem
  obtain ⟨c, more, hmore⟩ := List.exists_cons_of_ne_nil hne
  have hmid : mid = c :: (more ++ lastLine mid) := by
    rw [← List.cons_append, ← hmore, closedLines_append_lastLine]
  have hlt := h.beyond c (by rw [hmid]; rfl)
  rw [hlines, hmore, bytes_append, bytes_cons]
  omega

/-! ## UTF-16 -/

/-- A text in UTF-16: a character of the basic plane is one unit, any other a pair of
surrogates, which share the twenty bits of its number beyond that plane. -/
def utf16 (cs : List Char) : List UInt16 :=
  cs.flatMap fun c =>
    if c.toNat < 0x10000 then [UInt16.ofNat c.toNat]
    else
      let beyond := c.toNat - 0x10000
      [UInt16.ofNat (0xd800 + beyond / 0x400), UInt16.ofNat (0xdc00 + beyond % 0x400)]

/-- The units that are counted are those that are written. -/
theorem length_utf16 (cs : List Char) : (utf16 cs).length = units cs := by
  induction cs with
  | nil => rfl
  | cons c cs ih =>
    rw [utf16] at ih
    rw [utf16, List.flatMap_cons, List.length_append, ih, units_cons, charUnits]
    split <;> rfl

theorem charUnits_pos (c : Char) : 0 < charUnits c := by
  unfold charUnits
  split <;> omega

/-- UTF-8 is never shorter than UTF-16. -/
theorem charUnits_le_utf8Size (c : Char) : charUnits c ≤ c.utf8Size := by
  have hpos := Char.utf8Size_pos c
  by_cases hplane : c.toNat < 0x10000
  · rw [charUnits, if_pos hplane]
    exact hpos
  · have hone : c.utf8Size ≠ 1 := by
      intro h
      have hle : c.toNat ≤ 127 := UInt32.le_iff_toNat_le.mp (Char.utf8Size_eq_one_iff.mp h)
      omega
    rw [charUnits, if_neg hplane]
    omega

theorem units_le_bytes (cs : List Char) : units cs ≤ bytes cs := by
  induction cs with
  | nil => exact Nat.le_refl _
  | cons c cs ih => exact Nat.add_le_add (charUnits_le_utf8Size c) ih

theorem units_pos {cs : List Char} (h : cs ≠ []) : 0 < units cs := by
  obtain ⟨c, more, rfl⟩ := List.exists_cons_of_ne_nil h
  exact Nat.lt_of_lt_of_le (charUnits_pos c) (Nat.le_add_right ..)

theorem count_le_bytes (c : Char) (cs : List Char) : cs.count c ≤ bytes cs := by
  refine Nat.le_trans List.count_le_length ?_
  induction cs with
  | nil => exact Nat.le_refl _
  | cons d cs ih =>
    have hpos := Char.utf8Size_pos d
    rw [List.length_cons, bytes_cons]
    omega

end Text
end SpacingLint
