import SpacingLint.Text.Quoted

/-! # Writing that can be read back

A way of writing values down is **readable** when what is written can be told from what stands
behind it: two texts that begin with a written value are equal only if the values are equal and
the texts behind them are.  A number is readable only before what is no digit, so the notion
comes with a condition on what follows (`Readable`).

Readable ways can be put in a row (`Readable.append`) and repeated (`Readable.flatMap`).  A
quoted text is readable whatever follows (`readable_quoted`): its marks are never mistaken for
one of its characters, and every character that is not written as itself begins with a
backslash, which itself is written as two.
-/
namespace SpacingLint
namespace Text

/-- A way of writing that can be read off the front of a text, if what follows is as given. -/
def Readable {α : Type} (ahead : List Char → Prop) (write : α → List Char) : Prop :=
  ∀ ⦃a b : α⦄ ⦃rest more : List Char⦄, ahead rest → ahead more →
    write a ++ rest = write b ++ more → a = b ∧ rest = more

/-- Whatever follows. -/
def Anything (_ : List Char) : Prop := True

/-- What follows does not begin with a character of some class. -/
def Past (p : Char → Bool) (rest : List Char) : Prop := ∀ c ∈ rest.head?, p c = false

/-- What follows begins with a given character. -/
def Before (c : Char) (rest : List Char) : Prop := rest.head? = some c

theorem before_cons (c : Char) (rest : List Char) : Before c (c :: rest) := rfl

theorem not_before_cons {c d : Char} (h : d ≠ c) (rest : List Char) : ¬ Before c (d :: rest) :=
  fun hbefore => h (Option.some.inj hbefore)

theorem Before.past {c : Char} {rest : List Char} (h : Before c rest) {p : Char → Bool}
    (hc : p c = false) : Past p rest := by
  intro other hother
  obtain rfl := Option.some.inj (Eq.trans (Eq.symm h) hother)
  exact hc

section Past

variable {p : Char → Bool} {run rest : List Char}

/-- Characters of a class are read up to what is past it. -/
theorem takeWhile_append_past (hrun : ∀ c ∈ run, p c = true) (hrest : Past p rest) :
    (run ++ rest).takeWhile p = run := by
  rw [List.takeWhile_append_of_pos hrun]
  cases rest with
  | nil => simp
  | cons c rest => simp [hrest c rfl]

theorem dropWhile_append_past (hrun : ∀ c ∈ run, p c = true) (hrest : Past p rest) :
    (run ++ rest).dropWhile p = rest := by
  rw [List.dropWhile_append_of_pos hrun]
  cases rest with
  | nil => rfl
  | cons c rest => simp [hrest c rfl]

end Past

namespace Readable

variable {α β : Type} {ahead : List Char → Prop} {write : α → List Char}

/-- What follows may be asked for more than is needed. -/
theorem imp (h : Readable ahead write) {behind : List Char → Prop}
    (himp : ∀ rest, behind rest → ahead rest) : Readable behind write :=
  fun _ _ _ _ hrest hmore heq => h (himp _ hrest) (himp _ hmore) heq

/-- A character that closes what is written makes it readable anywhere. -/
theorem closed {c : Char} (h : Readable (Before c) write) :
    Readable Anything fun a => write a ++ [c] := by
  intro a b rest more _ _ heq
  simp only [List.append_assoc] at heq
  obtain ⟨hab, hrest⟩ := h (before_cons ..) (before_cons ..) heq
  exact ⟨hab, (List.cons.inj hrest).2⟩

/-- Fixed characters in front do not hurt. -/
theorem behind (h : Readable ahead write) (fixed : List Char) :
    Readable ahead fun a => fixed ++ write a := by
  intro a b rest more hrest hmore heq
  simp only [List.append_assoc] at heq
  exact h hrest hmore (List.append_cancel_left heq)

/-- **Two ways of writing in a row** are readable if the second lets the first be read. -/
theorem append {second : β → List Char} {behind : List Char → Prop} (h : Readable ahead write)
    (hsecond : Readable behind second)
    (hahead : ∀ b rest, behind rest → ahead (second b ++ rest)) :
    Readable behind fun pair : α × β => write pair.1 ++ second pair.2 := by
  rintro ⟨a, b⟩ ⟨a', b'⟩ rest more hrest hmore heq
  simp only [List.append_assoc] at heq
  obtain ⟨rfl, hbehind⟩ := h (hahead b rest hrest) (hahead b' more hmore) heq
  obtain ⟨rfl, rfl⟩ := hsecond hrest hmore hbehind
  exact ⟨rfl, rfl⟩

/-- A value can be read off if parts that determine it can. -/
theorem comp (h : Readable ahead write) {parts : β → α} (hparts : Function.Injective parts) :
    Readable ahead fun b => write (parts b) := by
  intro a b rest more hrest hmore heq
  obtain ⟨hab, rfl⟩ := h hrest hmore heq
  exact ⟨hparts hab, rfl⟩

/-- **Repeated writing** is readable where no further value is written. -/
theorem flatMap (h : Readable Anything write) (hend : ∀ a rest, ¬ ahead (write a ++ rest)) :
    Readable ahead fun values : List α => values.flatMap write := by
  intro values others
  induction values generalizing others with
  | nil =>
    intro rest more hrest _ heq
    cases others with
    | nil => exact ⟨rfl, heq⟩
    | cons b others =>
      simp only [List.flatMap_nil, List.nil_append, List.flatMap_cons, List.append_assoc] at heq
      exact absurd (heq ▸ hrest) (hend b _)
  | cons a values ih =>
    intro rest more hrest hmore heq
    cases others with
    | nil =>
      simp only [List.flatMap_nil, List.nil_append, List.flatMap_cons, List.append_assoc] at heq
      exact absurd (heq ▸ hmore) (hend a _)
    | cons b others =>
      simp only [List.flatMap_cons, List.append_assoc] at heq
      obtain ⟨rfl, hrests⟩ := h trivial trivial heq
      obtain ⟨rfl, rfl⟩ := ih hrest hmore hrests
      exact ⟨rfl, rfl⟩

/-- What is written with characters of one class ends where the class does. -/
theorem of_class {p : Char → Bool} (hinjective : Function.Injective write)
    (hclass : ∀ a, ∀ c ∈ write a, p c = true) : Readable (Past p) write := by
  intro a b rest more hrest hmore heq
  have hwritten : write a = write b := by
    rw [← takeWhile_append_past (hclass a) hrest, heq, takeWhile_append_past (hclass b) hmore]
  rw [hwritten] at heq
  exact ⟨hinjective hwritten, List.append_cancel_left heq⟩

end Readable

/-! ## Numbers -/

/-- Digits determine a number. -/
theorem toDigits_injective {base : Nat} (hbase : 1 < base) (hle : base ≤ 16) :
    Function.Injective (Nat.toDigits base) := by
  have hdigit : ∀ d < 16, ∀ e < 16, Nat.digitChar d = Nat.digitChar e → d = e := by decide
  -- By induction on the one number: the last digits agree, and so do the others.
  intro n
  induction n using Nat.strongRecOn with
  | _ n ih =>
    intro m heq
    have hshort : ∀ {front : Nat} {c d : Char}, Nat.toDigits base front ++ [c] ≠ [d] := by
      intro front c d happend
      rw [List.append_eq_singleton_iff] at happend
      rcases happend with ⟨hnil, -⟩ | ⟨-, hnil⟩
      · exact Nat.toDigits_ne_nil hnil
      · cases hnil
    rw [Nat.toDigits_eq_if hbase, Nat.toDigits_eq_if (n := m) hbase] at heq
    split at heq <;> split at heq
    · exact hdigit n (by omega) m (by omega) (List.singleton_inj.mp heq)
    · exact absurd heq.symm hshort
    · exact absurd heq hshort
    · obtain ⟨hfront, hlast⟩ := List.append_inj' heq rfl
      have hquotient := ih (n / base) (Nat.div_lt_self (by omega) hbase) hfront
      have hremainder := hdigit (n % base) (Nat.lt_of_lt_of_le (Nat.mod_lt _ (by omega)) hle)
        (m % base) (Nat.lt_of_lt_of_le (Nat.mod_lt _ (by omega)) hle)
        (List.singleton_inj.mp hlast)
      rw [← Nat.div_add_mod n base, ← Nat.div_add_mod m base, hquotient, hremainder]

/-- What is written in a base up to sixteen are the first sixteen digits. -/
theorem exists_digit_of_mem_toDigits {base : Nat} (hbase : 1 < base) (hle : base ≤ 16) {n : Nat}
    {c : Char} (hc : c ∈ Nat.toDigits base n) : ∃ d < 16, c = Nat.digitChar d := by
  induction n using Nat.strongRecOn with
  | _ n ih =>
    rw [Nat.toDigits_eq_if hbase] at hc
    split at hc
    · exact ⟨n, by omega, List.mem_singleton.mp hc⟩
    · rcases List.mem_append.mp hc with hfront | hlast
      · exact ih (n / base) (Nat.div_lt_self (by omega) hbase) hfront
      · exact ⟨n % base, Nat.lt_of_lt_of_le (Nat.mod_lt _ (by omega)) hle,
          List.mem_singleton.mp hlast⟩

/-- A number is readable before what is no digit. -/
theorem readable_decimal : Readable (Past Char.isDigit) (Nat.toDigits 10) :=
  .of_class (toDigits_injective (by decide) (by decide))
    fun _ _ hc => Nat.isDigit_of_mem_toDigits (by decide) (by decide) hc

/-! ## Quoted texts -/

/-- The characters that are written as a letter behind a backslash, with the letters. -/
def letters : List (Char × Char) :=
  [('\t', 't'), ('\r', 'r'), ('\n', 'n'), ('\x00', '0'), ('\\', '\\'), ('"', '"')]

/-- The ways in which one character of a quoted text is written. -/
inductive Spelled : Char → List Char → Prop
  /-- As a letter behind a backslash. -/
  | letter {c letter : Char} (hmem : (c, letter) ∈ letters) : Spelled c ['\\', letter]
  /-- By its code point. -/
  | code {c : Char} : Spelled c (codeEscape c)
  /-- As itself. -/
  | plain {c : Char} (hslash : c ≠ '\\') (hmark : c ≠ '"') : Spelled c [c]

theorem spelled_quoteChar (c : Char) : Spelled c (quoteChar '"' c) := by
  unfold quoteChar
  split
  · next h => exact h ▸ .letter (by decide)
  split
  · next h => exact h ▸ .letter (by decide)
  split
  · next h => exact h ▸ .letter (by decide)
  split
  · next h => exact h ▸ .letter (by decide)
  split
  · next h => rcases h with rfl | rfl <;> exact .letter (by decide)
  split
  · exact .code
  · next h _ => exact .plain (fun hc => h (.inl hc)) (fun hc => h (.inr hc))

theorem readable_codeEscape : Readable Anything codeEscape := by
  have hdigits : Readable (Past (· != '\x7d')) (Nat.toDigits 16) := by
    refine .of_class (toDigits_injective (by decide) (by decide)) fun n c hc => ?_
    obtain ⟨d, hd, rfl⟩ := exists_digit_of_mem_toDigits (by decide) (by decide) hc
    have hbrace : ∀ d < 16, (Nat.digitChar d != '\x7d') = true := by decide
    exact hbrace d hd
  have hclosed : Readable Anything fun n => Nat.toDigits 16 n ++ ['\x7d'] :=
    (hdigits.imp fun _ hbrace => hbrace.past rfl).closed
  have hinjective : Function.Injective Char.toNat := fun _ _ => Char.toNat_inj.mp
  exact (hclosed.behind ['\\', 'u', '\x7b']).comp hinjective

/-- **No two characters are written alike**, nor one as the beginning of another. -/
theorem readable_quoteChar : Readable Anything (quoteChar '"') := by
  intro c d rest more _ _ heq
  have hletters : ∀ one ∈ letters, ∀ other ∈ letters, one.2 = other.2 → one.1 = other.1 := by
    decide
  have hcode : ∀ one ∈ letters, one.2 ≠ 'u' := by decide
  have hc := spelled_quoteChar c
  have hd := spelled_quoteChar d
  generalize quoteChar '"' c = written at hc heq
  generalize quoteChar '"' d = other at hd heq
  cases hc with
  | letter hmem =>
    cases hd with
    | letter hmem' =>
      injection heq with _ heq
      injection heq with hsign hrest
      exact ⟨hletters _ hmem _ hmem' hsign, hrest⟩
    | code =>
      injection heq with _ heq
      injection heq with hsign _
      exact absurd hsign (hcode _ hmem)
    | plain hslash =>
      injection heq with hsign _
      exact absurd hsign.symm hslash
  | code =>
    cases hd with
    | letter hmem =>
      injection heq with _ heq
      injection heq with hsign _
      exact absurd hsign.symm (hcode _ hmem)
    | code => exact readable_codeEscape trivial trivial heq
    | plain hslash =>
      injection heq with hsign _
      exact absurd hsign.symm hslash
  | plain hslash =>
    cases hd with
    | letter =>
      injection heq with hsign _
      exact absurd hsign hslash
    | code =>
      injection heq with hsign _
      exact absurd hsign hslash
    | plain =>
      injection heq with hsign hrest
      exact ⟨hsign, hrest⟩

/-- No character of a quoted text begins with the mark. -/
theorem not_before_quoteChar (c : Char) (rest : List Char) :
    ¬ Before '"' (quoteChar '"' c ++ rest) := by
  have hc := spelled_quoteChar c
  generalize quoteChar '"' c = written at hc
  intro hbefore
  cases hc with
  | letter => cases hbefore
  | code => cases hbefore
  | plain _ hmark => exact hmark (Option.some.inj hbefore)

/-- **A quoted text can be read back**, whatever follows it. -/
theorem readable_quoted : Readable Anything fun text => (quoted text).toList := by
  have hchars : Readable (Before '"') (List.flatMap (quoteChar '"')) :=
    readable_quoteChar.flatMap not_before_quoteChar
  have hmarked := (hchars.closed.behind ['"']).comp fun _ _ => String.toList_inj.mp
  simpa only [quoted, quoteWith, String.toList_ofList, List.singleton_append] using hmarked

end Text
end SpacingLint
