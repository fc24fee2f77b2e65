import Mathlib.Data.List.Basic

/-! # Interleavings of lists

Several lists are interleaved by taking heads: any list that is not empty may be next, and
the order within each list is kept.  The merged list is a permutation of all of them
(`Interleaving.perm`), and one after the other they are interleaved too
(`Interleaving.flatten`).

Selecting entries and interleaving commute in both directions (`Interleaving.filterMap`,
`Interleaving.exists_filterMap`).  So when entries of one class are looked at, only the
lists of that class matter, and these decide whether the order of taking heads can be seen:
**there is a single interleaving exactly when entries of different lists are equal**
(`Interleaving.forall_eq_flatten_iff`).
-/
namespace SpacingLint

/-- A list merged from others by taking heads. -/
inductive Interleaving {α : Type} : List (List α) → List α → Prop
  /-- Nothing is left to take. -/
  | done {lists : List (List α)} (hnil : ∀ list ∈ lists, list = []) : Interleaving lists []
  /-- The head of one of the lists is next. -/
  | turn {before after : List (List α)} {a : α} {rest merged : List α}
      (h : Interleaving (before ++ rest :: after) merged) :
      Interleaving (before ++ (a :: rest) :: after) (a :: merged)

namespace Interleaving

variable {α β : Type} {lists before after : List (List α)} {merged : List α}

theorem perm (h : Interleaving lists merged) : merged.Perm lists.flatten := by
  induction h with
  | done hnil => rw [List.flatten_eq_nil_iff.mpr hnil]
  | @turn before after a rest merged _ ih =>
    rw [List.flatten_append, List.flatten_cons] at ih ⊢
    exact (ih.cons a).trans List.perm_middle.symm

/-- A list that is empty takes no turn. -/
theorem cons_nil (h : Interleaving lists merged) : Interleaving ([] :: lists) merged := by
  induction h with
  | done hnil => exact .done (List.forall_mem_cons.mpr ⟨rfl, hnil⟩)
  | @turn before after a rest merged _ ih => exact @turn _ ([] :: before) _ _ _ _ ih

/-- The first entries of one list may all be taken first. -/
theorem first {list : List α} (front : List α) (h : Interleaving (before ++ list :: after) merged) :
    Interleaving (before ++ (front ++ list) :: after) (front ++ merged) := by
  induction front with
  | nil => exact h
  | cons a front ih => exact .turn ih

/-- Lists may be taken one after the other. -/
theorem flatten (lists : List (List α)) : Interleaving lists lists.flatten := by
  induction lists with
  | nil => exact .done nofun
  | cons list rest ih =>
    have h : Interleaving ([] ++ (list ++ []) :: rest) (list ++ rest.flatten) :=
      first list ih.cons_nil
    rwa [List.append_nil] at h

/-- Entries may be selected before or after merging. -/
protected theorem filterMap (f : α → Option β) (h : Interleaving lists merged) :
    Interleaving (lists.map (List.filterMap f)) (merged.filterMap f) := by
  induction h with
  | done hnil =>
    refine .done fun list hlist => ?_
    obtain ⟨whole, hwhole, rfl⟩ := List.mem_map.mp hlist
    rw [hnil whole hwhole, List.filterMap_nil]
  | @turn before after a rest merged _ ih =>
    rw [List.map_append, List.map_cons] at ih ⊢
    cases ha : f a with
    | none => rwa [List.filterMap_cons_none ha, List.filterMap_cons_none ha]
    | some b =>
      rw [List.filterMap_cons_some ha, List.filterMap_cons_some ha]
      exact .turn ih

/-- What is merged from selected entries is selected from something merged. -/
theorem exists_filterMap {f : α → Option β} {selected : List β}
    (h : Interleaving (lists.map (List.filterMap f)) selected) :
    ∃ merged, Interleaving lists merged ∧ merged.filterMap f = selected := by
  generalize hlists : lists.map (List.filterMap f) = filtered at h
  induction h generalizing lists with
  | done hnil =>
    subst hlists
    refine ⟨lists.flatten, flatten lists, ?_⟩
    rw [List.filterMap_flatten, List.flatten_eq_nil_iff]
    exact hnil
  | @turn filteredBefore filteredAfter b rest merged _ ih =>
    obtain ⟨before, more, rfl, rfl, hmore⟩ := List.map_eq_append_iff.mp hlists
    obtain ⟨list, after, rfl, hlist, rfl⟩ := List.map_eq_cons_iff.mp hmore
    -- The entries before the selected one are taken along with it.
    obtain ⟨front, a, back, rfl, hfront, ha, rfl⟩ := List.filterMap_eq_cons_iff.mp hlist
    obtain ⟨whole, hwhole, rfl⟩ := @ih (before ++ back :: after) (by simp)
    refine ⟨(front ++ [a]) ++ whole, ?_, ?_⟩
    · have h := hwhole.first (front ++ [a])
      rwa [List.append_assoc, List.singleton_append] at h
    · simp [List.filterMap_append, List.filterMap_eq_nil_iff.mpr hfront, ha]

/-! ## When the order cannot be seen -/

/-- Entries of different lists are equal. -/
def Agree (lists : List (List α)) : Prop :=
  lists.Pairwise fun list other => ∀ a ∈ list, ∀ b ∈ other, a = b

theorem Agree.tail {a : α} {rest : List α} (h : Agree (before ++ (a :: rest) :: after)) :
    Agree (before ++ rest :: after) := by
  obtain ⟨hbefore, hmore, hcross⟩ := List.pairwise_append.mp h
  obtain ⟨hfirst, hafter⟩ := List.pairwise_cons.mp hmore
  refine List.pairwise_append.mpr ⟨hbefore, List.pairwise_cons.mpr ⟨?_, hafter⟩, ?_⟩
  · intro other hother x hx
    exact hfirst other hother x (List.mem_cons_of_mem _ hx)
  · intro list hlist other hother
    rcases List.mem_cons.mp hother with rfl | hother
    · intro x hx y hy
      exact hcross list hlist _ (List.mem_cons_self ..) x hx y (List.mem_cons_of_mem _ hy)
    · exact hcross list hlist other (List.mem_cons_of_mem _ hother)

/-- An entry commutes exactly with copies of itself. -/
theorem cons_eq_concat_iff {a : α} {list : List α} :
    a :: list = list ++ [a] ↔ ∀ b ∈ list, b = a := by
  induction list with
  | nil => simp
  | cons c rest ih =>
    rw [List.cons_append, List.cons.injEq, List.forall_mem_cons, eq_comm (a := a)]
    refine and_congr_right fun hc => ?_
    rw [hc, ih]

/-- If entries of different lists are equal, it does not matter whose turn it is. -/
theorem eq_flatten (h : Interleaving lists merged) (hagree : Agree lists) :
    merged = lists.flatten := by
  induction h with
  | done hnil => rw [List.flatten_eq_nil_iff.mpr hnil]
  | @turn before after a rest merged _ ih =>
    -- All that stands before the head that is taken is equal to it.
    have hbefore : ∀ b ∈ before.flatten, b = a := by
      intro b hb
      obtain ⟨list, hlist, hb⟩ := List.mem_flatten.mp hb
      obtain ⟨-, -, hcross⟩ := List.pairwise_append.mp hagree
      exact hcross list hlist (a :: rest) (List.mem_cons_self ..) b hb a (List.mem_cons_self ..)
    calc a :: merged
        = (a :: before.flatten) ++ (rest ++ after.flatten) := by simp [ih hagree.tail]
      _ = (before.flatten ++ [a]) ++ (rest ++ after.flatten) := by
          rw [cons_eq_concat_iff.mpr hbefore]
      _ = (before ++ (a :: rest) :: after).flatten := by simp

/-- If it never matters whose turn it is, all entries before a list are equal to those in it:
any first part of the list could be taken before them. -/
theorem eq_of_forall_eq_flatten {list : List α}
    (h : ∀ merged, Interleaving (before ++ list :: after) merged →
      merged = (before ++ list :: after).flatten) :
    ∀ b ∈ list, ∀ a ∈ before.flatten, a = b := by
  have hfront : ∀ front back, list = front ++ back →
      front ++ before.flatten = before.flatten ++ front := by
    rintro front back rfl
    have hmerged := h _ ((flatten (before ++ back :: after)).first front)
    simp only [List.flatten_append, List.flatten_cons, List.append_assoc] at hmerged
    rw [← List.append_assoc, ← List.append_assoc before.flatten] at hmerged
    exact List.append_cancel_right hmerged
  intro b hb
  obtain ⟨front, back, rfl⟩ := List.append_of_mem hb
  have hshort := hfront front (b :: back) rfl
  have hlong := hfront (front ++ [b]) back (by simp)
  rw [← List.append_assoc before.flatten, ← hshort, List.append_assoc, List.append_assoc] at hlong
  exact cons_eq_concat_iff.mp (List.append_cancel_left hlong)

/-- **The order cannot be seen exactly when entries of different lists are equal.** -/
theorem forall_eq_flatten_iff :
    (∀ merged, Interleaving lists merged → merged = lists.flatten) ↔ Agree lists := by
  refine ⟨fun h => ?_, fun hagree merged h => h.eq_flatten hagree⟩
  refine List.pairwise_iff_getElem.mpr fun i j hi hj hij a ha b hb => ?_
  have hsplit : lists = lists.take j ++ lists[j] :: lists.drop (j + 1) := by
    rw [← List.drop_eq_getElem_cons hj, List.take_append_drop]
  rw [hsplit] at h
  refine eq_of_forall_eq_flatten h b hb a (List.mem_flatten.mpr ⟨lists[i], ?_, ha⟩)
  exact List.mem_take_iff_getElem.mpr ⟨i, by omega, rfl⟩

end Interleaving
end SpacingLint
