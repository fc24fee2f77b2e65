/-! # Settings of rules

A rule is set on or off by its id.  Settings form a finite map that is kept as a
list sorted by id, so two maps with the same settings are the same value and the
order in which settings were made leaves no trace.
-/
namespace SpacingLint

/-- Whether a rule runs. -/
inductive Setting where
  | on
  | off
deriving DecidableEq, Inhabited

namespace Setting

/-- Whether the rule runs. -/
def isOn : Setting → Bool
  | on => true
  | off => false

/-- The name of a setting. -/
def name : Setting → String
  | on => "on"
  | off => "off"

/-- The setting of a name. -/
def ofName? : String → Option Setting
  | "on" => some on
  | "off" => some off
  | _ => none

/-- The setting of a truth value. -/
def ofBool (value : Bool) : Setting := if value then on else off

end Setting

/-- Settings of rules by id. -/
@[ext]
structure Settings where
  /-- The ids and their settings. -/
  entries : List (String × Setting)
  /-- They are in ascending order of the ids, and no id occurs twice. -/
  ascending : entries.Pairwise (·.1 < ·.1)
deriving DecidableEq

namespace Settings

/-- No settings. -/
def empty : Settings := ⟨[], .nil⟩

instance : Inhabited Settings := ⟨empty⟩

/-- A sorted list with one entry made or replaced. -/
def insertEntry (id : String) (setting : Setting) :
    List (String × Setting) → List (String × Setting)
  | [] => [(id, setting)]
  | entry :: rest =>
    if id < entry.1 then (id, setting) :: entry :: rest
    else if id = entry.1 then (id, setting) :: rest
    else entry :: insertEntry id setting rest

theorem mem_insertEntry {id : String} {setting : Setting} {entries : List (String × Setting)}
    {entry : String × Setting} (h : entry ∈ insertEntry id setting entries) :
    entry = (id, setting) ∨ entry ∈ entries := by
  induction entries with
  | nil => exact .inl (List.mem_singleton.mp h)
  | cons head rest ih =>
    unfold insertEntry at h
    split at h
    · exact (List.mem_cons.mp h)
    · split at h
      · exact (List.mem_cons.mp h).imp_right (List.mem_cons_of_mem _)
      · rcases List.mem_cons.mp h with h | h
        · exact .inr (h ▸ List.mem_cons_self ..)
        · exact (ih h).imp_right (List.mem_cons_of_mem _)

theorem ascending_insertEntry (id : String) (setting : Setting)
    {entries : List (String × Setting)} (h : entries.Pairwise (·.1 < ·.1)) :
    (insertEntry id setting entries).Pairwise (·.1 < ·.1) := by
  induction entries with
  | nil => exact List.pairwise_singleton ..
  | cons head rest ih =>
    obtain ⟨hhead, hrest⟩ := List.pairwise_cons.mp h
    unfold insertEntry
    split
    · next hlt =>
      refine List.pairwise_cons.mpr ⟨fun entry hentry => ?_, h⟩
      rcases List.mem_cons.mp hentry with rfl | hentry
      · exact hlt
      · exact String.lt_trans hlt (hhead entry hentry)
    · next hnlt =>
      split
      · next heq =>
        exact List.pairwise_cons.mpr ⟨fun entry hentry => heq ▸ hhead entry hentry, hrest⟩
      · next hne =>
        refine List.pairwise_cons.mpr ⟨fun entry hentry => ?_, ih hrest⟩
        rcases mem_insertEntry hentry with rfl | hentry
        · exact Decidable.byContradiction fun hle =>
            hne (String.le_antisymm hle hnlt)
        · exact hhead entry hentry

/-- The settings with one made or changed. -/
def insert (settings : Settings) (id : String) (setting : Setting) : Settings :=
  ⟨insertEntry id setting settings.entries, ascending_insertEntry id setting settings.ascending⟩

/-- The setting of an id. -/
def get? (settings : Settings) (id : String) : Option Setting :=
  (settings.entries.find? (·.1 = id)).map Prod.snd

/-- The ids that have a setting, in ascending order. -/
def ids (settings : Settings) : List String := settings.entries.map Prod.fst

/-- The settings that a list of pairs makes one after the other. -/
def ofList (pairs : List (String × Setting)) : Settings :=
  pairs.foldl (fun settings pair => settings.insert pair.1 pair.2) empty

/-- Some settings changed by others. -/
def merge (settings changes : Settings) : Settings :=
  changes.entries.foldl (fun settings pair => settings.insert pair.1 pair.2) settings

end Settings
end SpacingLint
