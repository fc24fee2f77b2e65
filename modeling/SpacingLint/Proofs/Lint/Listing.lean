import Mathlib.Data.List.Basic
import SpacingLint.Lint.Diagnostic
import SpacingLint.Proofs.Analysis.Interleaving

/-! # What a listing keeps of the order of reports

A listing is sorted by span and rule id, and diagnostics that agree in both are **tied**:
they stay in the order in which they were reported.  So what a listing keeps of the order
of its reports is the order within each class of tied ones, no more and no less
(`Diagnostic.listing_eq_listing_iff`).

When several lists of reports are interleaved, the listing is always the same exactly when
tied diagnostics of different lists are equal (`Diagnostic.forall_listing_eq_iff`).
-/
namespace SpacingLint

namespace Span

instance : Std.TransOrd Span :=
  inferInstanceAs (Std.TransCmp (compareLex (compareOn start) (compareOn stop)))

instance : Std.LawfulEqOrd Span where
  eq_of_compare {a b} h := by
    obtain ⟨hstart, hstop⟩ : compare a.start b.start = .eq ∧ compare a.stop b.stop = .eq :=
      Ordering.then_eq_eq.mp h
    exact Span.ext (Nat.compare_eq_eq.mp hstart) (Nat.compare_eq_eq.mp hstop)

/-- Spans are ordered by where they start, then by where they stop. -/
theorem isLE_compare_iff {a b : Span} :
    (compare a b).isLE = true ↔ a.start < b.start ∨ a.start = b.start ∧ a.stop ≤ b.stop := by
  show ((compare a.start b.start).then (compare a.stop b.stop)).isLE = true ↔ _
  rcases Nat.lt_trichotomy a.start b.start with h | h | h
  · simp [Nat.compare_eq_lt.mpr h, h]
  · simp [h, Nat.isLE_compare]
  · simp [Nat.compare_eq_gt.mpr h]
    omega

end Span

namespace Diagnostic

/-! ## The order -/

/-- Two diagnostics have the same place in a listing. -/
def Tied (a b : Diagnostic) : Prop := a.span = b.span ∧ a.ruleId = b.ruleId

instance (a b : Diagnostic) : Decidable (Tied a b) :=
  inferInstanceAs (Decidable (a.span = b.span ∧ a.ruleId = b.ruleId))

instance : Std.TransCmp listingOrder :=
  inferInstanceAs (Std.TransCmp (compareLex (compareOn span) (compareOn ruleId)))

theorem Tied.symm {a b : Diagnostic} (h : Tied a b) : Tied b a := ⟨h.1.symm, h.2.symm⟩

theorem Tied.trans {a b c : Diagnostic} (h : Tied a b) (h' : Tied b c) : Tied a c :=
  ⟨h.1.trans h'.1, h.2.trans h'.2⟩

theorem Tied.refl (a : Diagnostic) : Tied a a := ⟨rfl, rfl⟩

theorem listingOrder_eq_eq_iff {a b : Diagnostic} : listingOrder a b = .eq ↔ Tied a b := by
  show (compare a.span b.span).then (compare a.ruleId b.ruleId) = .eq ↔ _
  rw [Ordering.then_eq_eq, Std.compare_eq_iff_eq, Std.compare_eq_iff_eq, Tied]

/-- Diagnostics that can stand in either order are tied. -/
theorem tied_of_isLE {a b : Diagnostic} (h : (listingOrder a b).isLE = true)
    (h' : (listingOrder b a).isLE = true) : Tied a b :=
  listingOrder_eq_eq_iff.mp (Std.OrientedCmp.isLE_antisymm h h')

theorem isLE_of_tied {a b : Diagnostic} (h : Tied a b) : (listingOrder a b).isLE = true := by
  rw [listingOrder_eq_eq_iff.mpr h]
  rfl

theorem isLE_trans (a b c : Diagnostic) (h : (listingOrder a b).isLE = true)
    (h' : (listingOrder b c).isLE = true) : (listingOrder a c).isLE = true :=
  Std.TransCmp.isLE_trans h h'

theorem isLE_total (a b : Diagnostic) :
    ((listingOrder a b).isLE || (listingOrder b a).isLE) = true := by
  have hswap : listingOrder b a = (listingOrder a b).swap := Std.OrientedCmp.eq_swap
  rw [hswap]
  cases listingOrder a b <;> rfl

theorem isLE_of_start_lt {a b : Diagnostic} (h : a.span.start < b.span.start) :
    (listingOrder a b).isLE = true := by
  have hspan : compare a.span b.span = .lt := by
    show (compare a.span.start b.span.start).then _ = .lt
    rw [Nat.compare_eq_lt.mpr h]
    rfl
  show ((compare a.span b.span).then _).isLE = true
  rw [hspan]
  rfl

theorem isLE_span {a b : Diagnostic} (h : (listingOrder a b).isLE = true) :
    (compare a.span b.span).isLE = true := by
  have h : ((compare a.span b.span).then (compare a.ruleId b.ruleId)).isLE = true := h
  cases hspan : compare a.span b.span with
  | lt | eq => rfl
  | gt =>
    rw [hspan] at h
    cases h

/-! ## Listings -/

/-- The diagnostics of a list are in the order of listing. -/
def Listed (diagnostics : List Diagnostic) : Prop :=
  diagnostics.Pairwise fun a b => (listingOrder a b).isLE = true

/-- The diagnostics of a list that are tied to a given one. -/
def tiedTo (a : Diagnostic) (diagnostics : List Diagnostic) : List Diagnostic :=
  diagnostics.filter fun b => Tied a b

variable {a b : Diagnostic} {diagnostics others : List Diagnostic}

@[simp] theorem mem_tiedTo : b ∈ tiedTo a diagnostics ↔ b ∈ diagnostics ∧ Tied a b := by
  simp [tiedTo]

@[simp] theorem tiedTo_append :
    tiedTo a (diagnostics ++ others) = tiedTo a diagnostics ++ tiedTo a others :=
  List.filter_append ..

theorem tiedTo_cons_of_tied (h : Tied a b) :
    tiedTo a (b :: diagnostics) = b :: tiedTo a diagnostics :=
  List.filter_cons_of_pos (decide_eq_true h)

theorem tiedTo_cons_of_not_tied (h : ¬ Tied a b) :
    tiedTo a (b :: diagnostics) = tiedTo a diagnostics :=
  List.filter_cons_of_neg (by simpa using h)

theorem listing_perm (diagnostics : List Diagnostic) : (listing diagnostics).Perm diagnostics :=
  List.mergeSort_perm _ _

theorem listed_listing (diagnostics : List Diagnostic) : Listed (listing diagnostics) :=
  List.pairwise_mergeSort isLE_trans isLE_total _

theorem Listed.listing_eq (h : Listed diagnostics) : listing diagnostics = diagnostics :=
  List.mergeSort_of_pairwise h

/-- Diagnostics that start one behind the other are listed as they are. -/
theorem listing_of_ascending (h : diagnostics.Pairwise (·.span.start < ·.span.start)) :
    listing diagnostics = diagnostics :=
  Listed.listing_eq (h.imp isLE_of_start_lt)

/-- Diagnostics that are all tied are in order. -/
theorem listed_tiedTo (a : Diagnostic) (diagnostics : List Diagnostic) :
    Listed (tiedTo a diagnostics) := by
  refine List.pairwise_of_forall_mem_list fun b hb c hc => isLE_of_tied ?_
  exact (mem_tiedTo.mp hb).2.symm.trans (mem_tiedTo.mp hc).2

/-- **Tied diagnostics stay in the order of their reports.** -/
theorem tiedTo_listing (a : Diagnostic) (diagnostics : List Diagnostic) :
    tiedTo a (listing diagnostics) = tiedTo a diagnostics := by
  have hsublist : (tiedTo a diagnostics).Sublist (listing diagnostics) :=
    List.sublist_mergeSort isLE_trans isLE_total (listed_tiedTo a diagnostics)
      List.filter_sublist
  have hself : tiedTo a (tiedTo a diagnostics) = tiedTo a diagnostics := by
    simp [tiedTo]
  have htied : (tiedTo a diagnostics).Sublist (tiedTo a (listing diagnostics)) :=
    hself ▸ hsublist.filter _
  exact (htied.eq_of_length ((listing_perm diagnostics).filter _).length_eq.symm).symm

theorem mem_iff_of_tiedTo (h : ∀ a, tiedTo a diagnostics = tiedTo a others) :
    a ∈ diagnostics ↔ a ∈ others := by
  have hself : ∀ list, a ∈ list ↔ a ∈ tiedTo a list := by simp [Tied.refl]
  rw [hself diagnostics, h, ← hself]

/-- The first diagnostics of two lists in order are tied if both lists have the same members:
each can stand before the other. -/
theorem tied_of_heads (h : Listed (a :: diagnostics)) (h' : Listed (b :: others))
    (hmem : ∀ c, c ∈ a :: diagnostics ↔ c ∈ b :: others) : Tied a b := by
  rcases List.mem_cons.mp ((hmem a).mp (List.mem_cons_self ..)) with rfl | ha
  · exact Tied.refl a
  rcases List.mem_cons.mp ((hmem b).mpr (List.mem_cons_self ..)) with rfl | hb
  · exact Tied.refl b
  exact tied_of_isLE ((List.pairwise_cons.mp h).1 b hb) ((List.pairwise_cons.mp h').1 a ha)

theorem tiedTo_eq_of_cons {c : Diagnostic}
    (h : tiedTo c (a :: diagnostics) = tiedTo c (a :: others)) :
    tiedTo c diagnostics = tiedTo c others := by
  by_cases hc : Tied c a
  · rw [tiedTo_cons_of_tied hc, tiedTo_cons_of_tied hc] at h
    exact (List.cons.inj h).2
  · rwa [tiedTo_cons_of_not_tied hc, tiedTo_cons_of_not_tied hc] at h

/-- Lists in order are equal if their tied diagnostics are. -/
theorem Listed.eq_of_tiedTo (h : Listed diagnostics) (h' : Listed others)
    (heq : ∀ a, tiedTo a diagnostics = tiedTo a others) : diagnostics = others := by
  have hmem : ∀ a, a ∈ diagnostics ↔ a ∈ others := fun a => mem_iff_of_tiedTo heq
  induction diagnostics generalizing others with
  | nil => exact (List.eq_nil_iff_forall_not_mem.mpr fun a ha => nomatch (hmem a).mpr ha).symm
  | cons a rest ih =>
    cases others with
    | nil => exact nomatch (hmem a).mp (List.mem_cons_self ..)
    | cons b more =>
      have hheads := heq a
      rw [tiedTo_cons_of_tied (Tied.refl a), tiedTo_cons_of_tied (tied_of_heads h h' hmem)]
        at hheads
      obtain rfl : a = b := (List.cons.inj hheads).1
      have htails : ∀ c, tiedTo c rest = tiedTo c more := fun c => tiedTo_eq_of_cons (heq c)
      rw [ih (List.pairwise_cons.mp h).2 (List.pairwise_cons.mp h').2 htails
        fun c => mem_iff_of_tiedTo htails]

/-- **What a listing keeps of the order of reports** is the order of tied ones. -/
theorem listing_eq_listing_iff :
    listing diagnostics = listing others ↔ ∀ a, tiedTo a diagnostics = tiedTo a others := by
  constructor
  · intro h a
    rw [← tiedTo_listing a diagnostics, h, tiedTo_listing]
  · intro h
    refine (listed_listing _).eq_of_tiedTo (listed_listing _) fun a => ?_
    rw [tiedTo_listing, tiedTo_listing, h]

/-- What a listing goes by: the span and the rule id. -/
def place (a : Diagnostic) : Span × String := (a.span, a.ruleId)

theorem listed_map_place (diagnostics : List Diagnostic) :
    ((listing diagnostics).map place).Pairwise fun p q =>
      (compareLex (compareOn Prod.fst) (compareOn Prod.snd) p q).isLE = true :=
  List.pairwise_map.mpr (listed_listing diagnostics)

/-- **Places are listed alike whatever the order of reports.** -/
theorem map_place_listing (h : diagnostics.Perm others) :
    (listing diagnostics).map place = (listing others).map place := by
  have hperm : ((listing diagnostics).map place).Perm ((listing others).map place) :=
    (((listing_perm diagnostics).trans h).trans (listing_perm others).symm).map place
  refine hperm.eq_of_pairwise ?_ (listed_map_place diagnostics) (listed_map_place others)
  intro p q hp hq hle hge
  obtain ⟨a, -, rfl⟩ := List.mem_map.mp hp
  obtain ⟨b, -, rfl⟩ := List.mem_map.mp hq
  exact Prod.ext_iff.mpr (tied_of_isLE hle hge)

/-! ## Interleaved reports -/

/-- Tied diagnostics of different lists are equal. -/
def Separated (lists : List (List Diagnostic)) : Prop :=
  lists.Pairwise fun found others => ∀ a ∈ found, ∀ b ∈ others, Tied a b → a = b

/-- Tied diagnostics are equal if no order of them can be told from another. -/
theorem separated_iff {lists : List (List Diagnostic)} :
    Separated lists ↔ ∀ a, Interleaving.Agree (lists.map (tiedTo a)) := by
  simp only [Interleaving.Agree, List.pairwise_map, Separated]
  constructor
  · intro h a
    refine h.imp fun hpair b hb c hc => ?_
    obtain ⟨hb, hab⟩ := mem_tiedTo.mp hb
    obtain ⟨hc, hac⟩ := mem_tiedTo.mp hc
    exact hpair b hb c hc (hab.symm.trans hac)
  · intro h
    refine List.pairwise_iff_getElem.mpr fun i j hi hj hij a ha b hb hab => ?_
    exact List.pairwise_iff_getElem.mp (h a) i j hi hj hij a (mem_tiedTo.mpr ⟨ha, Tied.refl a⟩)
      b (mem_tiedTo.mpr ⟨hb, hab⟩)

/-- **Interleaved reports are always listed alike exactly when tied ones are equal.**  Some
reports may have come before. -/
theorem forall_listing_eq_iff {lists : List (List Diagnostic)} (front : List Diagnostic) :
    (∀ merged, Interleaving lists merged →
        listing (front ++ merged) = listing (front ++ lists.flatten)) ↔ Separated lists := by
  have hlist : ∀ a, (List.filterMap (Option.guard fun b => decide (Tied a b))) = tiedTo a :=
    fun a => funext fun list => congrFun List.filterMap_eq_filter list
  simp only [listing_eq_listing_iff, tiedTo_append, List.append_cancel_left_eq, separated_iff,
    ← Interleaving.forall_eq_flatten_iff]
  constructor
  · -- An order of the tied ones alone comes from an order of all.
    intro h a selected hselected
    rw [← hlist] at hselected
    obtain ⟨merged, hmerged, rfl⟩ := hselected.exists_filterMap
    rw [hlist, h merged hmerged a, ← hlist, List.filterMap_flatten]
  · intro h merged hmerged a
    have hselected := hmerged.filterMap (Option.guard fun b => decide (Tied a b))
    rw [hlist] at hselected
    rw [h a _ hselected, ← hlist, List.filterMap_flatten]

end Diagnostic
end SpacingLint
