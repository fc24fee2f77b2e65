import SpacingLint.Lint.IfSpacing
import SpacingLint.Lint.Table
import Mathlib.Data.List.Nodup

/-! # What a table keeps of a registration

A table holds its rules twice, in one list and kind by kind, and tells duplicates apart in two
ways: the list goes by ids and descriptors, the lanes of the kinds by handles.  Over any
registrations the two stay in step (`Table.Kept`): a lane is what its kind selects from the
list, and no id is there twice.

Which rules come in depends on their ids alone (`Rule.newcomers`).  A rule whose id is taken
changes nothing, whether it is passed over for having the descriptor of the rule that has the
id, or refused for having another one.
-/
namespace SpacingLint

namespace Rule

/-- Handles tell some rules apart: those that share a handle are one object. -/
def Identified (rules : List Rule) : Prop :=
  ∀ rule ∈ rules, ∀ other ∈ rules, rule.handle = other.handle → rule = other

/-- The rules that come in while some ids are taken: each whose id neither was taken nor
belongs to one that came in before it. -/
def newcomers (taken : List String) : List Rule → List Rule
  | [] => []
  | rule :: rest =>
    if rule.descriptor.id ∈ taken then newcomers taken rest
    else rule :: newcomers (taken ++ [rule.descriptor.id]) rest

theorem newcomers_subset (taken : List String) (rules : List Rule) :
    newcomers taken rules ⊆ rules := by
  induction rules generalizing taken with
  | nil => exact List.Subset.refl _
  | cons rule rest ih =>
    rw [newcomers]
    split
    · exact List.Subset.trans (ih _) (List.subset_cons_self ..)
    · exact List.cons_subset_cons _ (ih _)

theorem newcomers_append (taken : List String) (rules more : List Rule) :
    newcomers taken (rules ++ more) = newcomers taken rules ++
      newcomers (taken ++ (newcomers taken rules).map (·.descriptor.id)) more := by
  induction rules generalizing taken with
  | nil => simp [newcomers]
  | cons rule rest ih =>
    rw [List.cons_append, newcomers, newcomers]
    split
    · exact ih taken
    · simp [ih]

/-- The id of a newcomer was free. -/
theorem id_not_mem_of_mem_newcomers {taken : List String} {rules : List Rule} {rule : Rule}
    (h : rule ∈ newcomers taken rules) : rule.descriptor.id ∉ taken := by
  induction rules generalizing taken with
  | nil => cases h
  | cons first rest ih =>
    rw [newcomers] at h
    split at h
    · exact ih h
    · next hfree =>
      rcases List.mem_cons.mp h with rfl | hrest
      · exact hfree
      · exact fun hmem => ih hrest (List.mem_append_left _ hmem)

/-- Once rules were offered, their ids are taken. -/
theorem id_mem_of_mem {taken : List String} {rules : List Rule} {rule : Rule} (h : rule ∈ rules) :
    rule.descriptor.id ∈ taken ++ (newcomers taken rules).map (·.descriptor.id) := by
  induction rules generalizing taken with
  | nil => cases h
  | cons first rest ih =>
    rw [newcomers]
    rcases List.mem_cons.mp h with rfl | hrest
    · split
      · next htaken => exact List.mem_append_left _ htaken
      · simp
    · split
      · exact ih hrest
      · have hmem := @ih (taken ++ [first.descriptor.id]) hrest
        rwa [List.append_assoc, List.singleton_append] at hmem

/-- **An object that comes too late stays out**: its id belongs to one that came before it. -/
theorem not_mem_newcomers {past later : List Rule} {rule : Rule}
    (hfirst : ∀ other ∈ past, other.handle ≠ rule.handle)
    (htaken : ∃ other ∈ past, other.descriptor.id = rule.descriptor.id) :
    rule ∉ newcomers [] (past ++ rule :: later) := by
  intro hmem
  obtain ⟨other, hother, hid⟩ := htaken
  rw [newcomers_append] at hmem
  rcases List.mem_append.mp hmem with hpast | hlater
  · exact hfirst rule (newcomers_subset _ _ hpast) rfl
  · exact id_not_mem_of_mem_newcomers hlater (hid ▸ id_mem_of_mem hother)

namespace Identified

variable {rules more : List Rule}

theorem of_subset (h : Identified rules) (hsubset : more ⊆ rules) : Identified more :=
  fun rule hrule other hother => h rule (hsubset hrule) other (hsubset hother)

/-- Rules that are kept under their handles are told apart by them. -/
theorem map_of_handle {objects : Nat → Rule} (h : ∀ handle, (objects handle).handle = handle)
    (handles : List Nat) : Identified (handles.map objects) := by
  intro rule hrule other hother heq
  obtain ⟨handle, -, rfl⟩ := List.mem_map.mp hrule
  obtain ⟨handle', -, rfl⟩ := List.mem_map.mp hother
  rw [h, h] at heq
  rw [heq]

end Identified
end Rule

namespace Table

/-- The ids of the rules, in the order of registration. -/
def ids (table : Table) : List String := table.rules.map (·.descriptor.id)

theorem mem_ids_iff {table : Table} {id : String} :
    id ∈ table.ids ↔ ∃ other ∈ table.rules, other.descriptor.id = id :=
  List.mem_map

/-! ## Lanes -/

/-- The lanes after a rule came into those of some kinds. -/
def widen (rule : Rule) (kinds : List Kind) (lanes : Kind → List Rule) : Kind → List Rule :=
  fun kind => if kind ∈ kinds then lanes kind ++ [rule] else lanes kind

variable {rule : Rule} {lanes : Kind → List Rule}

/-- A rule comes into a lane once, however often its kind is declared. -/
theorem enter_widen (hfresh : ∀ kind, ∀ other ∈ lanes kind, other.handle ≠ rule.handle)
    (kinds : List Kind) (kind : Kind) :
    enter rule (widen rule kinds lanes) kind = widen rule (kinds ++ [kind]) lanes := by
  unfold enter
  funext other
  by_cases hkind : kind ∈ kinds
  · have hany : (widen rule kinds lanes kind).any (·.handle = rule.handle) = true := by
      simp [widen, hkind]
    rw [if_pos hany]
    by_cases hother : other = kind
    · simp [widen, hother, hkind]
    · simp [widen, hother]
  · have hnone : ¬ (widen rule kinds lanes kind).any (·.handle = rule.handle) = true := by
      simpa [widen, hkind] using hfresh kind
    rw [if_neg hnone]
    by_cases hother : other = kind
    · simp [widen, hother, hkind]
    · simp [widen, hother]

theorem foldl_enter (hfresh : ∀ kind, ∀ other ∈ lanes kind, other.handle ≠ rule.handle)
    (kinds : List Kind) : kinds.foldl (enter rule) lanes = widen rule kinds lanes := by
  -- The kinds entered so far are part of the statement.
  have key : ∀ kinds done : List Kind,
      kinds.foldl (enter rule) (widen rule done lanes) = widen rule (done ++ kinds) lanes := by
    intro kinds
    induction kinds with
    | nil => intro done; rw [List.append_nil, List.foldl_nil]
    | cons kind rest ih =>
      intro done
      rw [List.foldl_cons, enter_widen hfresh, ih, List.append_assoc, List.singleton_append]
  have hnone : widen rule [] lanes = lanes := by
    funext kind
    simp [widen]
  have h := key kinds []
  rwa [hnone, List.nil_append] at h

/-! ## One registration -/

variable {table : Table}

/-- **A registration**: the id is taken by a rule with the same descriptor, or by one with
another, or it is free. -/
theorem register_cases (table : Table) (rule : Rule) :
    (∃ other ∈ table.rules, other.descriptor = rule.descriptor ∧
        table.register rule = .ok table) ∨
      (∃ other ∈ table.rules, other.descriptor.id = rule.descriptor.id ∧
        other.descriptor ≠ rule.descriptor ∧
        table.register rule = .error (.duplicateRuleId rule.descriptor.id)) ∨
      rule.descriptor.id ∉ table.ids ∧
        table.register rule =
          .ok ⟨table.rules ++ [rule], rule.kinds.foldl (enter rule) table.rulesFor⟩ := by
  unfold register
  cases hfind : table.find? rule.descriptor.id with
  | none =>
    refine .inr (.inr ⟨fun hmem => ?_, rfl⟩)
    obtain ⟨other, hother, hid⟩ := mem_ids_iff.mp hmem
    exact List.find?_eq_none.mp hfind other hother (decide_eq_true hid)
  | some other =>
    have hmem := List.mem_of_find?_eq_some hfind
    have hid : other.descriptor.id = rule.descriptor.id := by
      simpa using List.find?_some hfind
    by_cases hsame : other.descriptor = rule.descriptor
    · exact .inl ⟨other, hmem, hsame, if_pos hsame⟩
    · exact .inr (.inl ⟨other, hmem, hid, hsame, if_neg hsame⟩)

/-- What is registered and what is not. -/
theorem add_cases (table : Table) (rule : Rule) :
    (rule.descriptor.id ∈ table.ids ∧ table.add rule = table) ∨
      rule.descriptor.id ∉ table.ids ∧
        table.add rule =
          ⟨table.rules ++ [rule], rule.kinds.foldl (enter rule) table.rulesFor⟩ := by
  unfold add
  rcases table.register_cases rule with
    ⟨other, hother, hsame, hok⟩ | ⟨other, hother, hid, -, herror⟩ | ⟨hfree, hok⟩
  · exact .inl ⟨mem_ids_iff.mpr ⟨other, hother, congrArg Descriptor.id hsame⟩, by rw [hok]⟩
  · exact .inl ⟨mem_ids_iff.mpr ⟨other, hother, hid⟩, by rw [herror]⟩
  · exact .inr ⟨hfree, by rw [hok]⟩

/-- **A table in order**: no two rules share an id, and each lane is what its kind selects
from the list. -/
structure Kept (table : Table) : Prop where
  nodup_ids : table.ids.Nodup
  rulesFor_eq : ∀ kind, table.rulesFor kind = table.rules.filter (kind ∈ ·.kinds)

namespace Kept

theorem empty : Table.empty.Kept :=
  ⟨List.nodup_nil, fun _ => rfl⟩

/-- Rules of a table in order are told apart by their ids. -/
theorem eq_of_id (h : table.Kept) {other : Rule} (hrule : rule ∈ table.rules)
    (hother : other ∈ table.rules) (hid : rule.descriptor.id = other.descriptor.id) :
    rule = other :=
  List.inj_on_of_nodup_map h.nodup_ids hrule hother hid

theorem nodup_rulesFor (h : table.Kept) (kind : Kind) : (table.rulesFor kind).Nodup := by
  rw [h.rulesFor_eq]
  exact (List.Nodup.of_map _ h.nodup_ids).filter _

/-- **A registration keeps a table in order**, if the rule is not one of the table under
another id. -/
theorem add (h : table.Kept)
    (hobject : ∀ other ∈ table.rules, other.handle = rule.handle → other = rule) :
    (table.add rule).Kept := by
  rcases table.add_cases rule with ⟨-, hsame⟩ | ⟨hfree, hmore⟩
  · rw [hsame]
    exact h
  · have hfresh : ∀ kind, ∀ other ∈ table.rulesFor kind, other.handle ≠ rule.handle := by
      intro kind other hother hhandle
      rw [h.rulesFor_eq] at hother
      have hmem := (List.mem_filter.mp hother).1
      exact hfree (mem_ids_iff.mpr ⟨other, hmem, by rw [hobject other hmem hhandle]⟩)
    rw [hmore, foldl_enter hfresh]
    refine ⟨?_, fun kind => ?_⟩
    · simp only [ids, List.map_append, List.map_cons, List.map_nil]
      exact List.nodup_append.mpr ⟨h.nodup_ids, List.nodup_singleton _, by
        intro id hid other hother heq
        rw [List.mem_singleton] at hother
        exact hfree (hother ▸ heq ▸ hid)⟩
    · by_cases hkind : kind ∈ rule.kinds <;>
        simp [widen, hkind, List.filter_append, h.rulesFor_eq]

/-- Which registrations fail: those whose id belongs to a rule with another descriptor. -/
theorem register_eq_error_iff (h : table.Kept) {error : RegistryError} :
    table.register rule = .error error ↔
      error = .duplicateRuleId rule.descriptor.id ∧ ∃ other ∈ table.rules,
        other.descriptor.id = rule.descriptor.id ∧ other.descriptor ≠ rule.descriptor := by
  rcases table.register_cases rule with
    ⟨other, hother, hsame, hok⟩ | ⟨other, hother, hid, hne, herror⟩ | ⟨hfree, hok⟩
  · rw [hok]
    refine ⟨nofun, ?_⟩
    rintro ⟨-, another, hanother, hid, hne⟩
    have heq := h.eq_of_id hanother hother (hid.trans (congrArg Descriptor.id hsame.symm))
    exact absurd (heq ▸ hsame) hne
  · rw [herror, Except.error.injEq, eq_comm]
    exact ⟨fun heq => ⟨heq, other, hother, hid, hne⟩, And.left⟩
  · rw [hok]
    refine ⟨nofun, ?_⟩
    rintro ⟨-, other, hother, hid, -⟩
    exact absurd (mem_ids_iff.mpr ⟨other, hother, hid⟩) hfree

/-- Which registrations succeed and change nothing: those of a descriptor that is there. -/
theorem register_eq_self_iff (h : table.Kept) :
    table.register rule = .ok table ↔ ∃ other ∈ table.rules, other.descriptor = rule.descriptor := by
  rcases table.register_cases rule with
    ⟨other, hother, hsame, hok⟩ | ⟨other, hother, hid, hne, herror⟩ | ⟨hfree, hok⟩
  · exact ⟨fun _ => ⟨other, hother, hsame⟩, fun _ => hok⟩
  · rw [herror]
    refine ⟨nofun, ?_⟩
    rintro ⟨another, hanother, hsame⟩
    have heq := h.eq_of_id hanother hother ((congrArg Descriptor.id hsame).trans hid.symm)
    exact absurd (heq ▸ hsame) hne
  · rw [hok]
    constructor
    · intro hself
      have hrules := congrArg Table.rules (Except.ok.inj hself)
      simp at hrules
    · rintro ⟨other, hother, hsame⟩
      exact absurd (mem_ids_iff.mpr ⟨other, hother, congrArg Descriptor.id hsame⟩) hfree

end Kept

/-! ## Any registrations -/

/-- Adding a rule changes nothing exactly if its id is taken. -/
theorem add_eq_self_iff : table.add rule = table ↔ rule.descriptor.id ∈ table.ids := by
  rcases table.add_cases rule with ⟨htaken, hsame⟩ | ⟨hfree, hmore⟩
  · exact ⟨fun _ => htaken, fun _ => hsame⟩
  · refine ⟨fun hself => ?_, fun htaken => absurd htaken hfree⟩
    have hrules := congrArg Table.rules (hmore.symm.trans hself)
    simp at hrules

/-- **Which rules come in**: the newcomers, behind those that are there. -/
theorem rules_foldl_add (table : Table) (rules : List Rule) :
    (rules.foldl add table).rules = table.rules ++ Rule.newcomers table.ids rules := by
  induction rules generalizing table with
  | nil => exact (List.append_nil _).symm
  | cons rule rest ih =>
    rw [List.foldl_cons, ih, Rule.newcomers]
    rcases table.add_cases rule with ⟨htaken, hsame⟩ | ⟨hfree, hmore⟩
    · rw [if_pos htaken, hsame]
    · rw [if_neg hfree, hmore]
      simp [ids]

theorem rules_ofRules (rules : List Rule) : (ofRules rules).rules = Rule.newcomers [] rules :=
  rules_foldl_add empty rules

/-- Registrations keep a table in order. -/
theorem Kept.foldl_add {rules : List Rule} (h : table.Kept)
    (hobjects : Rule.Identified (table.rules ++ rules)) : (rules.foldl Table.add table).Kept := by
  induction rules generalizing table with
  | nil => exact h
  | cons rule rest ih =>
    refine ih (h.add fun other hother => ?_) (hobjects.of_subset ?_)
    · exact hobjects other (List.mem_append_left _ hother) rule (by simp)
    · rcases table.add_cases rule with ⟨-, hsame⟩ | ⟨-, hmore⟩
      · rw [hsame]
        exact ((List.sublist_cons_self rule rest).append_left _).subset
      · rw [hmore, List.append_assoc]
        exact List.Subset.refl _

/-- **Any registrations give a table in order.** -/
theorem kept_ofRules {rules : List Rule} (h : Rule.Identified rules) : (ofRules rules).Kept :=
  Kept.empty.foldl_add h

/-- **What a table keeps of any registrations.**  Its rules are those whose id was free when
they came, and each lane lists the ones that declared its kind, once each and in the same
order.  One more rule is refused if its id belongs to a rule with another descriptor, passed over
if its descriptor is there, and changes the table only if its id is free. -/
theorem ofRules_registrations {rules : List Rule} (h : Rule.Identified rules) :
    (ofRules rules).rules = Rule.newcomers [] rules ∧
      ((ofRules rules).rules.map (·.descriptor.id)).Nodup ∧
      (∀ kind, (ofRules rules).rulesFor kind =
          (ofRules rules).rules.filter (kind ∈ ·.kinds) ∧
        ((ofRules rules).rulesFor kind).Nodup) ∧
      ∀ rule,
        (∀ error, (ofRules rules).register rule = .error error ↔
          error = .duplicateRuleId rule.descriptor.id ∧ ∃ other ∈ (ofRules rules).rules,
            other.descriptor.id = rule.descriptor.id ∧ other.descriptor ≠ rule.descriptor) ∧
        ((ofRules rules).register rule = .ok (ofRules rules) ↔
          ∃ other ∈ (ofRules rules).rules, other.descriptor = rule.descriptor) ∧
        (ofRules (rules ++ [rule]) = ofRules rules ↔
          ∃ other ∈ (ofRules rules).rules, other.descriptor.id = rule.descriptor.id) := by
  have hkept := kept_ofRules h
  refine ⟨rules_ofRules rules, hkept.nodup_ids,
    fun kind => ⟨hkept.rulesFor_eq kind, hkept.nodup_rulesFor kind⟩, fun rule => ?_⟩
  refine ⟨fun error => hkept.register_eq_error_iff, hkept.register_eq_self_iff, ?_⟩
  rw [ofRules, List.foldl_append]
  exact add_eq_self_iff.trans mem_ids_iff

/-- Four objects: the second one has the descriptor of the first but another kind, the third
only its id, and the fourth an id of its own.  They see the nodes of their kinds. -/
def sample (handle : Nat) : Rule where
  handle := handle
  descriptor := { IfSpacing.descriptor with
    id := if handle = 3 then "B" else "A"
    title := if handle = 2 then "Impostor" else "" }
  kinds := if handle = 1 then [.ifStatement] else [.block, .expression, .block]
  findings := fun _ node => [.ofMessage IfSpacing.descriptor node.span "seen"]

/-- Six registrations: an object comes three times, another one with its descriptor and one
with its id. -/
def samples : List Rule := [0, 0, 1, 2, 3, 0].map sample

/-- Two of the objects come in, and the one that has only the id is refused. -/
theorem ofRules_registrations_sample :
    Rule.Identified samples ∧
      (ofRules samples).rules.map (·.handle) = [0, 3] ∧
      ((ofRules samples).rulesFor .block).map (·.handle) = [0, 3] ∧
      (ofRules samples).rulesFor .ifStatement = [] ∧
      (ofRules samples).register (sample 2) = .error (.duplicateRuleId "A") := by
  have h : Rule.Identified samples := Rule.Identified.map_of_handle (fun _ => rfl) _
  obtain ⟨hrules, -, hlanes, hone⟩ := ofRules_registrations h
  have hcame : Rule.newcomers [] samples = [sample 0, sample 3] := rfl
  rw [hcame] at hrules
  refine ⟨h, by rw [hrules]; rfl, ?_, ?_, ?_⟩
  · rw [(hlanes .block).1, hrules]
    rfl
  · rw [(hlanes .ifStatement).1, hrules]
    rfl
  · refine ((hone (sample 2)).1 _).mpr ⟨rfl, sample 0, ?_, rfl, by decide⟩
    rw [hrules]
    exact List.mem_cons_self ..

end Table
end SpacingLint
