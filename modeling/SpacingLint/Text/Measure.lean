/-! # Measuring and cutting text

A text is measured in two units.  Spans count bytes of its UTF-8 form, editor
columns count UTF-16 code units.  Both measures are sums over the characters, so
both take a concatenation to a sum, and a text can be cut at a byte offset
exactly when that offset does not fall inside a character.
-/
namespace SpacingLint
namespace Text

/-- The number of bytes of a list of characters in UTF-8. -/
def bytes : List Char → Nat
  | [] => 0
  | c :: cs => c.utf8Size + bytes cs

@[simp] theorem bytes_nil : bytes [] = 0 := rfl

@[simp] theorem bytes_cons (c : Char) (cs : List Char) :
    bytes (c :: cs) = c.utf8Size + bytes cs := rfl

@[simp] theorem bytes_append (cs ds : List Char) :
    bytes (cs ++ ds) = bytes cs + bytes ds := by
  induction cs with
  | nil => simp
  | cons c cs ih => simp [ih, Nat.add_assoc]

theorem size_utf8Encode (cs : List Char) : (List.utf8Encode cs).size = bytes cs := by
  induction cs with
  | nil => simp
  | cons c cs ih =>
    rw [List.utf8Encode_cons, ByteArray.size_append, ih, List.utf8Encode_singleton]
    simp

/-- The size of a text is the number of bytes of its characters. -/
theorem utf8ByteSize_eq_bytes (text : String) : text.utf8ByteSize = bytes text.toList := by
  rw [← size_utf8Encode, ← String.toByteArray_ofList, String.ofList_toList,
    String.size_toByteArray]

@[simp] theorem utf8ByteSize_ofList (cs : List Char) :
    (String.ofList cs).utf8ByteSize = bytes cs := by
  rw [utf8ByteSize_eq_bytes, String.toList_ofList]

theorem bytes_pos {cs : List Char} (h : cs ≠ []) : 0 < bytes cs := by
  obtain ⟨c, more, rfl⟩ := List.exists_cons_of_ne_nil h
  exact Nat.lt_of_lt_of_le (Char.utf8Size_pos c) (Nat.le_add_right ..)

/-- The number of UTF-16 code units of one character: two beyond the basic plane. -/
def charUnits (c : Char) : Nat :=
  if c.toNat < 0x10000 then 1 else 2

/-- The number of UTF-16 code units of a list of characters. -/
def units : List Char → Nat
  | [] => 0
  | c :: cs => charUnits c + units cs

@[simp] theorem units_nil : units [] = 0 := rfl

@[simp] theorem units_cons (c : Char) (cs : List Char) :
    units (c :: cs) = charUnits c + units cs := rfl

@[simp] theorem units_append (cs ds : List Char) :
    units (cs ++ ds) = units cs + units ds := by
  induction cs with
  | nil => simp
  | cons c cs ih => simp [ih, Nat.add_assoc]

/-- What is left after the first `n` bytes; `none` if the text is shorter or byte
`n` lies inside a character. -/
def drop? : Nat → List Char → Option (List Char)
  | 0, cs => some cs
  | _ + 1, [] => none
  | n + 1, c :: cs => if c.utf8Size ≤ n + 1 then drop? (n + 1 - c.utf8Size) cs else none

/-- The first `n` bytes, under the same condition as `drop?`. -/
def take? : Nat → List Char → Option (List Char)
  | 0, _ => some []
  | _ + 1, [] => none
  | n + 1, c :: cs =>
    if c.utf8Size ≤ n + 1 then (take? (n + 1 - c.utf8Size) cs).map (c :: ·) else none

/-- The characters between two byte offsets; `none` if the offsets are out of
order, out of bounds or inside a character. -/
def slice? (cs : List Char) (start stop : Nat) : Option (List Char) :=
  if start ≤ stop then (drop? start cs).bind (take? (stop - start)) else none

@[simp] theorem drop?_zero (cs : List Char) : drop? 0 cs = some cs := by
  cases cs <;> rfl

@[simp] theorem take?_zero (cs : List Char) : take? 0 cs = some [] := by
  cases cs <;> rfl

/-- What is dropped behind some characters is dropped from the rest. -/
theorem drop?_bytes_add (cs : List Char) (n : Nat) (ds : List Char) :
    drop? (bytes cs + n) (cs ++ ds) = drop? n ds := by
  induction cs with
  | nil => simp
  | cons c cs ih =>
    have hc := Char.utf8Size_pos c
    obtain ⟨m, hm⟩ : ∃ m, bytes (c :: cs) + n = m + 1 := ⟨bytes (c :: cs) + n - 1, by simp; omega⟩
    have hsum : c.utf8Size + bytes cs + n = m + 1 := by simpa using hm
    rw [hm, List.cons_append, drop?, if_pos (by omega)]
    rw [show m + 1 - c.utf8Size = bytes cs + n by omega, ih]

/-- What is taken beyond some characters is taken from the rest. -/
theorem take?_bytes_add (cs : List Char) (n : Nat) (ds : List Char) :
    take? (bytes cs + n) (cs ++ ds) = (take? n ds).map (cs ++ ·) := by
  induction cs with
  | nil => simp
  | cons c cs ih =>
    have hc := Char.utf8Size_pos c
    obtain ⟨m, hm⟩ : ∃ m, bytes (c :: cs) + n = m + 1 := ⟨bytes (c :: cs) + n - 1, by simp; omega⟩
    have hsum : c.utf8Size + bytes cs + n = m + 1 := by simpa using hm
    rw [hm, List.cons_append, take?, if_pos (by omega)]
    rw [show m + 1 - c.utf8Size = bytes cs + n by omega, ih, Option.map_map]
    rfl

theorem drop?_bytes_append (cs ds : List Char) : drop? (bytes cs) (cs ++ ds) = some ds := by
  simpa using drop?_bytes_add cs 0 ds

theorem take?_bytes_append (cs ds : List Char) : take? (bytes cs) (cs ++ ds) = some cs := by
  simpa using take?_bytes_add cs 0 ds

/-- **A piece of a text is found where it stands.** -/
theorem slice?_append (before piece after : List Char) :
    slice? (before ++ piece ++ after) (bytes before) (bytes before + bytes piece) =
      some piece := by
  rw [slice?, if_pos (by omega), List.append_assoc, drop?_bytes_append]
  rw [show bytes before + bytes piece - bytes before = bytes piece by omega]
  exact take?_bytes_append piece after

/-- What is dropped of a text are as many bytes as were asked for. -/
theorem exists_of_drop? {n : Nat} {cs rest : List Char} (h : drop? n cs = some rest) :
    ∃ done, cs = done ++ rest ∧ bytes done = n := by
  induction cs generalizing n with
  | nil =>
    cases n with
    | zero => cases h; exact ⟨[], rfl, rfl⟩
    | succ n => cases h
  | cons c cs ih =>
    cases n with
    | zero => cases h; exact ⟨[], rfl, rfl⟩
    | succ n =>
      rw [drop?] at h
      split at h
      · obtain ⟨done, rfl, hbytes⟩ := ih h
        exact ⟨c :: done, rfl, by rw [bytes_cons]; omega⟩
      · cases h

/-- What is taken of a text are as many bytes as were asked for. -/
theorem exists_of_take? {n : Nat} {cs taken : List Char} (h : take? n cs = some taken) :
    ∃ rest, cs = taken ++ rest ∧ bytes taken = n := by
  induction cs generalizing n taken with
  | nil =>
    cases n with
    | zero => cases h; exact ⟨[], rfl, rfl⟩
    | succ n => cases h
  | cons c cs ih =>
    cases n with
    | zero => cases h; exact ⟨c :: cs, rfl, rfl⟩
    | succ n =>
      rw [take?] at h
      split at h
      · obtain ⟨more, hmore, rfl⟩ := Option.map_eq_some_iff.mp h
        obtain ⟨rest, rfl, hbytes⟩ := ih hmore
        exact ⟨rest, rfl, by rw [bytes_cons]; omega⟩
      · cases h

/-- **What is cut out of a text stands between the two offsets.** -/
theorem exists_of_slice? {cs piece : List Char} {start stop : Nat}
    (h : slice? cs start stop = some piece) :
    ∃ before after, cs = before ++ piece ++ after ∧ bytes before = start ∧
      bytes (before ++ piece) = stop := by
  unfold slice? at h
  split at h
  · next hle =>
    obtain ⟨rest, hdrop, htake⟩ := Option.bind_eq_some_iff.mp h
    obtain ⟨before, rfl, hbefore⟩ := exists_of_drop? hdrop
    obtain ⟨after, rfl, hpiece⟩ := exists_of_take? htake
    exact ⟨before, after, (List.append_assoc ..).symm, hbefore, by rw [bytes_append]; omega⟩
  · cases h

end Text
end SpacingLint
