/-! # Spans of text

A span is a half-open interval of byte offsets.  It cannot be inverted: the order
of its ends is part of the type, so every span met anywhere in the library has a
length.  Spans are ordered by where they start, then by where they stop.
-/
namespace SpacingLint

/-- A half-open interval of byte offsets. -/
@[ext]
structure Span where
  /-- The offset of the first byte in the span. -/
  start : Nat
  /-- The offset one past the last byte in the span. -/
  stop : Nat
  /-- The span is not inverted. -/
  start_le_stop : start ≤ stop
deriving DecidableEq

namespace Span

instance : Inhabited Span := ⟨⟨0, 0, Nat.le_refl 0⟩⟩

/-- The span between two offsets; `none` if they are out of order. -/
def between? (start stop : Nat) : Option Span :=
  if h : start ≤ stop then some ⟨start, stop, h⟩ else none

/-- The zero-width span at an offset. -/
def caret (offset : Nat) : Span := ⟨offset, offset, Nat.le_refl offset⟩

/-- The first `size` bytes of a text. -/
def upTo (size : Nat) : Span := ⟨0, size, Nat.zero_le size⟩

/-- The span of `size` bytes that starts at an offset. -/
def ofSize (start size : Nat) : Span := ⟨start, start + size, Nat.le_add_right start size⟩

/-- The least span that holds two given spans. -/
def hull (a b : Span) : Span :=
  ⟨min a.start b.start, max a.stop b.stop,
    Nat.le_trans (Nat.min_le_left ..) (Nat.le_trans a.start_le_stop (Nat.le_max_left ..))⟩

/-- The number of bytes in a span. -/
def length (s : Span) : Nat := s.stop - s.start

/-- A span without bytes. -/
def isEmpty (s : Span) : Bool := s.start == s.stop

/-- Whether a span lies within another. -/
def contains (outer inner : Span) : Bool :=
  outer.start ≤ inner.start && inner.stop ≤ outer.stop

/-- Spans are compared by their starts, then by their stops. -/
instance : Ord Span := ⟨compareLex (compareOn start) (compareOn stop)⟩

instance : ToString Span := ⟨fun s => s!"{s.start}..{s.stop}"⟩

/-! ## Facts -/

@[simp] theorem hull_start (a b : Span) : (a.hull b).start = min a.start b.start := rfl

@[simp] theorem hull_stop (a b : Span) : (a.hull b).stop = max a.stop b.stop := rfl

@[simp] theorem ofSize_start (start size : Nat) : (ofSize start size).start = start := rfl

@[simp] theorem ofSize_stop (start size : Nat) : (ofSize start size).stop = start + size := rfl

/-- A span is built exactly from two offsets in order. -/
theorem between?_eq_some_iff {start stop : Nat} {s : Span} :
    between? start stop = some s ↔ s.start = start ∧ s.stop = stop := by
  unfold between?
  constructor
  · intro h
    split at h
    · cases h; exact ⟨rfl, rfl⟩
    · cases h
  · rintro ⟨rfl, rfl⟩
    rw [dif_pos s.start_le_stop]

/-- Containment compares both ends. -/
theorem contains_iff {outer inner : Span} :
    outer.contains inner = true ↔ outer.start ≤ inner.start ∧ inner.stop ≤ outer.stop := by
  simp [contains]

end Span
end SpacingLint
