import SpacingLint.Lint.Template
import SpacingLint.Proofs.Text.Readable
import Mathlib.Data.List.Induction
import Mathlib.Data.Nat.Digits.Defs

/-! # A message is a template with its placeholders replaced

A template is read from the left, and a brace that opens no placeholder is passed over alone.
Here it is shown that the order of reading does not matter: a message comes of a template by
replacing all of its placeholders at once, wherever they stand, and by nothing else.

To say so, a template is split into placeholders and single characters such that every
placeholder that stands anywhere in it is one of the parts (`Splits`).  There is such a split
because placeholders cannot overlap: each has one opening brace and one closing brace, at its
ends (`Splits.placeholder`, `Splits.plain`).  There is only one (`Splits.unique`), as each
placeholder of one split is found in the other.
-/
namespace SpacingLint
namespace Template

/-! ## Placeholders -/

/-- The value of a decimal digit. -/
def digitValue (digit : Char) : Nat := digit.toNat - '0'.toNat

/-- Some decimal digits, at least one, and their value in base ten. -/
def IsNumber (digits : List Char) (value : Nat) : Prop :=
  digits ≠ [] ∧ (∀ digit ∈ digits, digit.isDigit = true) ∧
    Nat.ofDigits 10 (digits.reverse.map digitValue) = value

/-- What may stand between braces: a number, or one after a plus sign. -/
def IsIndex (text : List Char) (index : Nat) : Prop :=
  IsNumber text index ∨ ∃ digits, text = '+' :: digits ∧ IsNumber digits index

/-- A placeholder that `value` replaces: the number of an argument between braces. -/
def IsPlaceholder (arguments : List (List Char)) (text value : List Char) : Prop :=
  ∃ inner index, text = '\x7b' :: (inner ++ ['\x7d']) ∧ IsIndex inner index ∧
    arguments[index]? = some value

variable {arguments : List (List Char)} {template text value before after : List Char}

theorem decimal_eq_ofDigits (digits : List Char) :
    decimal digits = Nat.ofDigits 10 (digits.reverse.map digitValue) := by
  induction digits using List.reverseRecOn with
  | nil => rfl
  | append_singleton digits digit ih =>
    have hstep : decimal (digits ++ [digit]) = 10 * decimal digits + digitValue digit := by
      simp [decimal, digitValue]
    rw [hstep, ih, List.reverse_concat, List.map_cons, Nat.ofDigits_cons, Nat.add_comm]

theorem isNumber_iff {digits : List Char} {index : Nat} :
    IsNumber digits index ↔
      (if digits ≠ [] ∧ digits.all Char.isDigit then some (decimal digits) else none) =
        some index := by
  simp [IsNumber, decimal_eq_ofDigits, and_assoc]

theorem IsNumber.not_mem {digits : List Char} {index : Nat} (h : IsNumber digits index) {c : Char}
    (hc : c.isDigit = false) : c ∉ digits := by
  intro hmem
  exact absurd (h.2.1 c hmem) (Bool.eq_false_iff.mp hc)

/-- The number of a placeholder is read for what it is. -/
theorem index?_eq_some_iff {inner : List Char} {index : Nat} :
    index? inner = some index ↔ IsIndex inner index := by
  by_cases hplus : ∃ digits, inner = '+' :: digits
  · obtain ⟨digits, rfl⟩ := hplus
    have hnot : ¬ IsNumber ('+' :: digits) index := fun h => h.not_mem rfl (List.mem_cons_self ..)
    have hplus : IsIndex ('+' :: digits) index ↔ IsNumber digits index := by
      simp [IsIndex, hnot]
    rw [hplus, isNumber_iff]
    rfl
  · have hbare : IsIndex inner index ↔ IsNumber inner index := by
      refine or_iff_left ?_
      rintro ⟨digits, hinner, -⟩
      exact hplus ⟨digits, hinner⟩
    rw [hbare, isNumber_iff, index?]
    exact fun digits hinner => hplus ⟨digits, hinner⟩

/-- Between the braces of a placeholder stands no brace. -/
theorem IsIndex.not_mem {inner : List Char} {index : Nat} (h : IsIndex inner index) :
    '\x7b' ∉ inner ∧ '\x7d' ∉ inner := by
  rcases h with h | ⟨digits, rfl, h⟩
  · exact ⟨h.not_mem rfl, h.not_mem rfl⟩
  · simp [h.not_mem (c := '\x7b') rfl, h.not_mem (c := '\x7d') rfl]

/-- A text without closing brace is what stands before the first one. -/
theorem takeWhile_closing {inner : List Char} (h : '\x7d' ∉ inner) (after : List Char) :
    (inner ++ '\x7d' :: after).takeWhile (· ≠ '\x7d') = inner ∧
      (inner ++ '\x7d' :: after).dropWhile (· ≠ '\x7d') = '\x7d' :: after := by
  have hrun : ∀ c ∈ inner, (c ≠ '\x7d' : Bool) = true := by
    intro c hc
    exact decide_eq_true fun heq => h (heq ▸ hc)
  have hpast : Text.Past (· ≠ '\x7d') ('\x7d' :: after) := by
    intro c hc
    obtain rfl := Option.some.inj hc
    rfl
  exact ⟨Text.takeWhile_append_past hrun hpast, Text.dropWhile_append_past hrun hpast⟩

/-- **A placeholder is found right behind its opening brace, and nowhere else.** -/
theorem placeholder?_eq_some_iff {cs : List Char} :
    placeholder? arguments cs = some (value, after) ↔
      ∃ text, IsPlaceholder arguments text value ∧ text ++ after = '\x7b' :: cs := by
  constructor
  · intro h
    unfold placeholder? at h
    split at h
    · cases h
    · next d rest hdrop =>
      simp only [Option.bind_eq_bind, Option.bind_eq_some_iff, Option.pure_def,
        Option.some.injEq, Prod.mk.injEq] at h
      obtain ⟨index, hindex, argument, hargument, rfl, rfl⟩ := h
      have hd : d = '\x7d' := by
        have hnot := List.head?_dropWhile_not (· ≠ '\x7d') cs
        rw [hdrop] at hnot
        simpa using hnot
      subst hd
      refine ⟨_, ⟨_, index, rfl, index?_eq_some_iff.mp hindex, hargument⟩, ?_⟩
      rw [List.cons_append, List.append_assoc, List.singleton_append, ← hdrop,
        List.takeWhile_append_dropWhile]
  · rintro ⟨_, ⟨inner, index, rfl, hindex, hargument⟩, hcs⟩
    obtain rfl : inner ++ '\x7d' :: after = cs := by simpa using hcs
    obtain ⟨htake, hdrop⟩ := takeWhile_closing hindex.not_mem.2 after
    unfold placeholder?
    rw [hdrop, htake, index?_eq_some_iff.mpr hindex]
    simp [hargument]

/-- A placeholder opens where it begins, and nowhere else. -/
theorem IsPlaceholder.exists_eq_cons (h : IsPlaceholder arguments text value) :
    ∃ more, text = '\x7b' :: more ∧ '\x7b' ∉ more := by
  obtain ⟨inner, index, rfl, hindex, -⟩ := h
  exact ⟨_, rfl, by simp [hindex.not_mem.1]⟩

/-- At most one placeholder begins at a place. -/
theorem IsPlaceholder.unique {text' value' after' : List Char}
    (h : IsPlaceholder arguments text value) (h' : IsPlaceholder arguments text' value')
    (heq : text ++ after = text' ++ after') : text = text' ∧ value = value' ∧ after = after' := by
  obtain ⟨more, rfl, -⟩ := h.exists_eq_cons
  obtain ⟨more', rfl, -⟩ := h'.exists_eq_cons
  -- Both are what is found behind the same brace.
  have hfound : placeholder? arguments (more ++ after) = some (value, after) :=
    placeholder?_eq_some_iff.mpr ⟨_, h, rfl⟩
  have hfound' : placeholder? arguments (more' ++ after') = some (value', after') :=
    placeholder?_eq_some_iff.mpr ⟨_, h', rfl⟩
  have hmore : more ++ after = more' ++ after' := (List.cons.inj heq).2
  rw [hmore, hfound'] at hfound
  obtain ⟨rfl, rfl⟩ := Prod.mk.inj (Option.some.inj hfound)
  exact ⟨List.append_cancel_right heq, rfl, rfl⟩

/-- **Placeholders do not overlap**: one that begins no earlier than another is the same, or
begins behind it. -/
theorem IsPlaceholder.apart {text' value' after' : List Char}
    (h : IsPlaceholder arguments text value) (h' : IsPlaceholder arguments text' value')
    (heq : text ++ after = before ++ (text' ++ after')) :
    (before = [] ∧ text = text' ∧ value = value' ∧ after = after') ∨
      ∃ mid, before = text ++ mid ∧ after = mid ++ (text' ++ after') := by
  obtain ⟨more, htext, hnone⟩ := h.exists_eq_cons
  obtain ⟨more', htext', -⟩ := h'.exists_eq_cons
  rcases List.append_eq_append_iff.mp heq with ⟨mid, rfl, hafter⟩ | ⟨within, hwithin, hfront⟩
  · exact .inr ⟨mid, rfl, hafter⟩
  · cases before with
    | nil => exact .inl ⟨rfl, h.unique h' heq⟩
    | cons b before =>
      cases within with
      | nil =>
        rw [List.append_nil] at hwithin
        exact .inr ⟨[], by rw [List.append_nil, hwithin], hfront.symm⟩
      | cons c within =>
        -- An opening brace would stand within the first one.
        obtain ⟨-, rfl⟩ := List.cons.inj (htext.symm.trans hwithin)
        obtain ⟨rfl, -⟩ : '\x7b' = c ∧ _ := List.cons.inj (htext' ▸ hfront)
        exact absurd (by simp) hnone

/-! ## Splitting a template -/

/-- What a template falls into. -/
inductive Part where
  /-- A character that stands for itself. -/
  | plain (c : Char)
  /-- A placeholder, and what replaces it. -/
  | placeholder (text value : List Char)

namespace Part

/-- How a part is written in the template. -/
def source : Part → List Char
  | plain c => [c]
  | placeholder text _ => text

/-- What a part comes to in the message. -/
def result : Part → List Char
  | plain c => [c]
  | placeholder _ value => value

end Part

/-- **A template is split** into its placeholders and the characters outside of them. -/
structure Splits (arguments : List (List Char)) (template : List Char) (parts : List Part) :
    Prop where
  /-- The parts make up the template. -/
  spelled : parts.flatMap Part.source = template
  /-- What passes for a placeholder is one. -/
  sound : ∀ text value, .placeholder text value ∈ parts → IsPlaceholder arguments text value
  /-- Every placeholder is a part, wherever it stands in the template. -/
  complete : ∀ before text after value, template = before ++ text ++ after →
    IsPlaceholder arguments text value → ∃ init rest,
      parts = init ++ .placeholder text value :: rest ∧ init.flatMap Part.source = before ∧
        rest.flatMap Part.source = after

namespace Splits

variable {parts : List Part}

theorem nil : Splits arguments [] [] := by
  refine ⟨rfl, nofun, ?_⟩
  intro before text after value htemplate h
  obtain ⟨more, rfl, -⟩ := h.exists_eq_cons
  simp at htemplate

/-- A character at which no placeholder begins is a part by itself. -/
theorem plain {c : Char} (h : Splits arguments template parts)
    (hnone : ∀ text value after, c :: template = text ++ after →
      ¬ IsPlaceholder arguments text value) :
    Splits arguments (c :: template) (.plain c :: parts) := by
  refine ⟨congrArg (c :: ·) h.spelled, ?_, ?_⟩
  · intro text value hmem
    rcases List.mem_cons.mp hmem with hmem | hmem
    · cases hmem
    · exact h.sound text value hmem
  · intro before text after value htemplate hplaceholder
    cases before with
    | nil => exact absurd hplaceholder (hnone text value after htemplate)
    | cons d before =>
      obtain ⟨rfl, hlater⟩ := List.cons.inj htemplate
      obtain ⟨init, rest, rfl, rfl, hrest⟩ := h.complete before text after value hlater hplaceholder
      exact ⟨.plain c :: init, rest, rfl, rfl, hrest⟩

/-- A placeholder is a part, and none begins within it. -/
theorem placeholder (h : Splits arguments template parts)
    (hplaceholder : IsPlaceholder arguments text value) :
    Splits arguments (text ++ template) (.placeholder text value :: parts) := by
  refine ⟨congrArg (text ++ ·) h.spelled, ?_, ?_⟩
  · intro text' value' hmem
    rcases List.mem_cons.mp hmem with hmem | hmem
    · cases hmem
      exact hplaceholder
    · exact h.sound text' value' hmem
  · intro before text' after value' htemplate hother
    rw [List.append_assoc] at htemplate
    rcases hplaceholder.apart hother htemplate with ⟨rfl, rfl, rfl, rfl⟩ | ⟨mid, rfl, hlater⟩
    · exact ⟨[], parts, rfl, rfl, h.spelled⟩
    · rw [← List.append_assoc] at hlater
      obtain ⟨init, rest, rfl, rfl, hrest⟩ := h.complete mid text' after value' hlater hother
      exact ⟨.placeholder text value :: init, rest, rfl, rfl, hrest⟩

/-- No part is written with nothing. -/
theorem source_ne_nil (h : Splits arguments template parts) {part : Part} (hmem : part ∈ parts) :
    part.source ≠ [] := by
  cases part with
  | plain c => exact List.cons_ne_nil c []
  | placeholder text value =>
    obtain ⟨more, rfl, -⟩ := (h.sound text value hmem).exists_eq_cons
    exact List.cons_ne_nil _ more

/-- Parts that are written with nothing are none. -/
theorem init_eq_nil {init rest : List Part} (h : Splits arguments template (init ++ rest))
    (hinit : init.flatMap Part.source = []) : init = [] := by
  refine List.eq_nil_iff_forall_not_mem.mpr fun part hmem => ?_
  have hempty : part.source = [] := List.flatMap_eq_nil_iff.mp hinit part hmem
  exact h.source_ne_nil (List.mem_append_left rest hmem) hempty

/-- What stands behind the first part is split into the parts behind it. -/
theorem tail {part : Part} (h : Splits arguments template (part :: parts)) :
    Splits arguments (parts.flatMap Part.source) parts := by
  refine ⟨rfl, fun text value hmem => h.sound text value (List.mem_cons_of_mem _ hmem), ?_⟩
  intro before text after value htemplate hplaceholder
  have hwhole : template = part.source ++ before ++ text ++ after := by
    rw [← h.spelled, List.flatMap_cons, htemplate]
    simp
  obtain ⟨init, rest, hparts, hinit, hrest⟩ := h.complete _ text after value hwhole hplaceholder
  cases init with
  | nil =>
    have hempty : part.source = [] := (List.append_eq_nil_iff.mp hinit.symm).1
    exact absurd hempty (h.source_ne_nil (List.mem_cons_self ..))
  | cons first init =>
    obtain ⟨rfl, hlater⟩ := List.cons.inj hparts
    exact ⟨init, rest, hlater, List.append_cancel_left hinit, hrest⟩

/-- A placeholder that comes first in one split comes first in every split. -/
theorem eq_of_placeholder {other : Part} {others : List Part}
    (h : Splits arguments template (.placeholder text value :: parts))
    (hother : Splits arguments template (other :: others)) : .placeholder text value = other := by
  have hplaceholder := h.sound text value (List.mem_cons_self ..)
  have hfront : template = [] ++ text ++ parts.flatMap Part.source := by
    rw [← h.spelled]
    rfl
  obtain ⟨init, rest, hparts, hinit, -⟩ := hother.complete _ _ _ _ hfront hplaceholder
  rw [hparts] at hother
  obtain rfl := hother.init_eq_nil hinit
  exact (List.cons.inj hparts).1.symm

/-- What comes first in one split comes first in every split. -/
theorem first_eq {part other : Part} {others : List Part}
    (h : Splits arguments template (part :: parts))
    (hother : Splits arguments template (other :: others)) : part = other := by
  cases part with
  | placeholder text value => exact h.eq_of_placeholder hother
  | plain c =>
    cases other with
    | placeholder text value => exact (hother.eq_of_placeholder h).symm
    | plain d =>
      have hspelled := h.spelled.trans hother.spelled.symm
      exact congrArg Part.plain (List.cons.inj hspelled).1

/-- **A template is split in one way.** -/
theorem unique {others : List Part} (h : Splits arguments template parts)
    (hother : Splits arguments template others) : parts = others := by
  have hspelled := h.spelled.trans hother.spelled.symm
  induction parts generalizing template others with
  | nil =>
    rw [← List.append_nil others] at hother
    exact (hother.init_eq_nil hspelled.symm).symm
  | cons part parts ih =>
    cases others with
    | nil =>
      rw [← List.append_nil (part :: parts)] at h
      exact h.init_eq_nil hspelled
    | cons other others =>
      obtain rfl := h.first_eq hother
      have hlater : parts.flatMap Part.source = others.flatMap Part.source :=
        List.append_cancel_left hspelled
      exact congrArg (part :: ·) (ih h.tail (hlater ▸ hother.tail) hlater)

end Splits

/-- **A template is filled in part by part.** -/
theorem exists_splits (arguments : List (List Char)) (template : List Char) :
    ∃ parts, Splits arguments template parts ∧
      parts.flatMap Part.result = fill arguments template := by
  fun_induction fill arguments template with
  | case1 => exact ⟨[], .nil, rfl⟩
  | case2 rest value after hfound ih =>
    obtain ⟨parts, hparts, hresult⟩ := ih
    obtain ⟨text, hplaceholder, htext⟩ := placeholder?_eq_some_iff.mp hfound
    refine ⟨.placeholder text value :: parts, htext ▸ hparts.placeholder hplaceholder, ?_⟩
    rw [List.flatMap_cons, hresult, Part.result]
  | case3 rest hnone ih =>
    obtain ⟨parts, hparts, hresult⟩ := ih
    refine ⟨.plain '\x7b' :: parts, hparts.plain fun text value after htext hplaceholder => ?_, ?_⟩
    · have hfound := placeholder?_eq_some_iff.mpr ⟨text, hplaceholder, htext.symm⟩
      cases hnone.symm.trans hfound
    · rw [List.flatMap_cons, hresult, Part.result, List.singleton_append]
  | case4 c rest hc ih =>
    obtain ⟨parts, hparts, hresult⟩ := ih
    refine ⟨.plain c :: parts, hparts.plain fun text value after htext hplaceholder => ?_, ?_⟩
    · obtain ⟨more, rfl, -⟩ := hplaceholder.exists_eq_cons
      exact hc (List.cons.inj htext).1
    · rw [List.flatMap_cons, hresult, Part.result, List.singleton_append]

/-- **A message is its template with all placeholders replaced at once.** -/
theorem render_eq_iff {template message : String} {arguments : List Argument} :
    render template arguments = message ↔
      ∃ parts, Splits (arguments.map (·.render.toList)) template.toList parts ∧
        parts.flatMap Part.result = message.toList := by
  obtain ⟨parts, hparts, hresult⟩ :=
    exists_splits (arguments.map (·.render.toList)) template.toList
  constructor
  · rintro rfl
    exact ⟨parts, hparts, by rw [hresult, render, String.toList_ofList]⟩
  · rintro ⟨others, hothers, hmessage⟩
    obtain rfl := hparts.unique hothers
    rw [render, ← hresult, hmessage, String.ofList_toList]

-- What has been put in is not read again, and a number without an argument stays as it is.
example : render "\x7b\x7b0\x7d \x7b+01\x7d \x7b2\x7d \x7b" [.text "\x7b1\x7d", .flag true] =
    "\x7b\x7b1\x7d true \x7b2\x7d \x7b" := by
  decide +kernel

end Template
end SpacingLint
