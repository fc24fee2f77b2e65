import SpacingLint.Config.Decode
import SpacingLint.Proofs.Lint.Layers
import SpacingLint.Proofs.Outcome

/-! # Configurations are read as they were written

A configuration is written in one way, up to the order of members, and may be spelled in many.
What is read is told here without the reader: the values that stand for a setting
(`Setting.spellings`) and for a traversal (`TraversalMode.SpelledBy`), and of a record, which members
it may have and what the values told of a part make of it (`Told`).  At each level a value is read as
what it spells and as nothing else, up to `AnalysisConfig.ofJson_eq_ok_iff`.

That reading undoes writing is then a matter of spelling: what is written for a configuration spells
it (`AnalysisConfig.WrittenAs.spelledBy`).  Nobody promises in which order the members of an object
are written, so no order is asked for.  Members are made into settings one after the other; what
comes of it does not depend on the order if no id occurs twice (`Settings.ofList_eq_of_perm`).
-/
namespace SpacingLint

/-! ## Settings -/

namespace Setting

/-- The JSON values that stand for a setting. -/
def spellings : Setting → List Json
  | on => [.str "on", .str "true", .bool true]
  | off => [.str "off", .str "false", .bool false]

theorem ofText?_eq_some_iff {text : String} {setting : Setting} :
    ofText? text = some setting ↔ .str text ∈ setting.spellings := by
  unfold ofText?
  split <;> cases setting <;> simp_all [spellings]

theorem ofJson_eq_ok_iff {value : Json} {setting : Setting} :
    ofJson value = .ok setting ↔ value ∈ setting.spellings := by
  cases value with
  | bool value => cases value <;> cases setting <;> simp [ofJson, ofBool, spellings]
  | str text =>
    rw [← ofText?_eq_some_iff, ofJson]
    cases ofText? text <;> simp
  | _ => cases setting <;> simp [ofJson, spellings]

theorem toJson_mem_spellings (setting : Setting) : setting.toJson ∈ setting.spellings := by
  cases setting <;> exact List.mem_cons_self ..

end Setting

namespace Settings

/-- A member of an object says what a pair does. -/
def Spells (member : String × Json) (pair : String × Setting) : Prop :=
  member.1 = pair.1 ∧ member.2 ∈ pair.2.spellings

/-- Settings are spelled by an object whose members make them one after the other, so that of
several members of one name the last one counts. -/
def SpelledBy (settings : Settings) : Json → Prop
  | .obj members => ∃ pairs, List.Forall₂ Spells members pairs ∧ ofList pairs = settings
  | _ => False

theorem addMembers_eq_ok_iff {settings result : Settings} {members : List (String × Json)} :
    addMembers settings members = .ok result ↔
      ∃ pairs, List.Forall₂ Spells members pairs ∧
        pairs.foldl (fun settings pair => settings.insert pair.1 pair.2) settings = result := by
  induction members generalizing settings with
  | nil => simp [addMembers]
  | cons member rest ih =>
    obtain ⟨id, value⟩ := member
    rw [addMembers, bind_eq_ok_iff]
    constructor
    · rintro ⟨setting, hvalue, hrest⟩
      obtain ⟨pairs, hpairs, hresult⟩ := ih.mp hrest
      exact ⟨(id, setting) :: pairs, .cons ⟨rfl, Setting.ofJson_eq_ok_iff.mp hvalue⟩ hpairs,
        hresult⟩
    · rintro ⟨_, _ | ⟨⟨rfl, hvalue⟩, hpairs⟩, hresult⟩
      exact ⟨_, Setting.ofJson_eq_ok_iff.mpr hvalue, ih.mpr ⟨_, hpairs, hresult⟩⟩

theorem ofJson_eq_ok_iff {value : Json} {settings : Settings} :
    ofJson value = .ok settings ↔ settings.SpelledBy value := by
  cases value with
  | obj members => exact addMembers_eq_ok_iff
  | _ => simp [ofJson, SpelledBy]

/-- Pairs in any order make the settings whose entries they are. -/
theorem ofList_eq_of_perm {pairs : List (String × Setting)} {settings : Settings}
    (h : pairs.Perm settings.entries) : ofList pairs = settings := by
  rw [ofList, merge_eq_of_perm empty settings h]
  refine ext_get? fun id => ?_
  rw [get?_merge]
  exact Option.or_none

/-- Settings are written as an object with a member for each, in some order. -/
def WrittenAs (settings : Settings) (value : Json) : Prop :=
  ∃ pairs : List (String × Setting), pairs.Perm settings.entries ∧
    value = .obj (pairs.map fun pair => (pair.1, pair.2.toJson))

theorem writtenAs_toJson (settings : Settings) : settings.WrittenAs settings.toJson :=
  ⟨settings.entries, .refl _, rfl⟩

theorem WrittenAs.spelledBy {settings : Settings} {value : Json} (h : settings.WrittenAs value) :
    settings.SpelledBy value := by
  obtain ⟨pairs, hperm, rfl⟩ := h
  refine ⟨pairs, ?_, ofList_eq_of_perm hperm⟩
  rw [List.forall₂_map_left_iff, List.forall₂_same]
  exact fun pair _ => ⟨rfl, pair.2.toJson_mem_spellings⟩

end Settings

/-! ## The traversal -/

namespace TraversalMode

/-- A mode is spelled by its name, and by an object whose only member has that name and says
nothing. -/
def SpelledBy (mode : TraversalMode) : Json → Prop
  | .str name => name = mode.name
  | .obj members => members = [(mode.name, .null)]
  | _ => False

theorem ofName?_eq_some_iff {name : String} {mode : TraversalMode} :
    ofName? name = some mode ↔ name = mode.name := by
  unfold ofName?
  split <;> cases mode <;> simp_all [TraversalMode.name]

theorem ofText_eq_ok_iff_eq_name {name : String} {mode : TraversalMode} :
    ofText name = .ok mode ↔ name = mode.name := by
  rw [ofText, ← ofName?_eq_some_iff]
  cases ofName? name <;> simp

theorem ofJson_eq_ok_iff {value : Json} {mode : TraversalMode} :
    ofJson value = .ok mode ↔ mode.SpelledBy value := by
  cases value with
  | str name => exact ofText_eq_ok_iff_eq_name
  | obj members =>
    rcases members with _ | ⟨⟨name, value⟩, _ | ⟨second, rest⟩⟩
    · simp [ofJson, SpelledBy]
    · rw [ofJson, bind_eq_ok_iff]
      -- Behind the name only the value that says nothing is taken.
      cases value <;> simp [ofText_eq_ok_iff_eq_name, SpelledBy, pure, Except.pure, throw, throwThe,
        MonadExceptOf.throw]
    · simp [ofJson, SpelledBy]
  | _ => simp [ofJson, SpelledBy]

end TraversalMode

/-! ## Parts of records -/

/-- The values of the members of one name. -/
def valuesOf (name : String) (members : List (String × Json)) : List Json :=
  (members.filter (·.1 = name)).map Prod.snd

theorem valuesOf_cons_self (name : String) (value : Json) (rest : List (String × Json)) :
    valuesOf name ((name, value) :: rest) = value :: valuesOf name rest := by
  simp [valuesOf]

theorem valuesOf_cons_of_ne {name other : String} (h : other ≠ name) (value : Json)
    (rest : List (String × Json)) :
    valuesOf name ((other, value) :: rest) = valuesOf name rest := by
  simp [valuesOf, h]

section Told

variable {α : Type} {spelledBy : α → Json → Prop} {default part : α} {heard : Option α}
  {value : Json} {values : List Json}

/-- What becomes of a part of a record, given what was heard of it before and the values that are
told of it.  Nothing told leaves it as it was heard, or as it is by default; it must not be told
of twice. -/
def Told (spelledBy : α → Json → Prop) (default : α) (heard : Option α) (part : α) :
    List Json → Prop
  | [] => part = heard.getD default
  | [value] => heard = none ∧ spelledBy part value
  | _ :: _ :: _ => False

/-- The first value that is told is heard by the others. -/
theorem told_cons : Told spelledBy default heard part (value :: values) ↔
    heard = none ∧ ∃ said, spelledBy said value ∧
      Told spelledBy default (some said) part values := by
  rcases values with _ | ⟨second, _ | _⟩ <;> simp [Told]

/-- A reader that reads the first value, and goes on with what it heard, reads what all the values
tell. -/
theorem bind_eq_ok_iff_told {β : Type} {first : Except DataError α}
    {more : α → Except DataError β} {result : β} {others : Prop}
    (hfirst : ∀ said, first = .ok said ↔ spelledBy said value)
    (hmore : ∀ said, more said = .ok result ↔
      others ∧ Told spelledBy default (some said) part values) :
    first >>= more = .ok result ↔
      others ∧ Told spelledBy default none part (value :: values) := by
  rw [bind_eq_ok_iff, told_cons]
  constructor
  · rintro ⟨said, hsaid, hrest⟩
    obtain ⟨hothers, htold⟩ := (hmore said).mp hrest
    exact ⟨hothers, rfl, said, (hfirst said).mp hsaid, htold⟩
  · rintro ⟨hothers, -, said, hsaid, htold⟩
    exact ⟨said, (hfirst said).mpr hsaid, (hmore said).mpr ⟨hothers, htold⟩⟩

end Told

/-! ## Configurations of rules -/

namespace LintConfig

/-- A configuration of rules is spelled by an object or an array that has its settings for its only
part. -/
def SpelledBy (config : LintConfig) : Json → Prop
  | .obj members => (∀ member ∈ members, member.1 = "rules") ∧
      Told Settings.SpelledBy Settings.empty none config.rules (valuesOf "rules" members)
  | .arr items => Told Settings.SpelledBy Settings.empty none config.rules items
  | _ => False

theorem ofMembers_eq_ok_iff {config : LintConfig} {rules : Option Settings}
    {members : List (String × Json)} :
    ofMembers rules members = .ok config ↔ (∀ member ∈ members, member.1 = "rules") ∧
      Told Settings.SpelledBy Settings.empty rules config.rules (valuesOf "rules" members) := by
  fun_induction ofMembers rules members with
  | case1 rules =>
    obtain ⟨settings⟩ := config
    simp [Told, valuesOf, eq_comm]
  | case2 value rest heard =>
    rw [valuesOf_cons_self, told_cons]
    simp
  | case3 value rest ih =>
    rw [bind_eq_ok_iff_told (fun _ => Settings.ofJson_eq_ok_iff) ih, List.forall_mem_cons,
      valuesOf_cons_self]
    simp
  | case4 rules name value rest hname => simp [hname]

theorem ofJson_eq_ok_iff {value : Json} {config : LintConfig} :
    ofJson value = .ok config ↔ config.SpelledBy value := by
  obtain ⟨settings⟩ := config
  cases value with
  | obj members => exact ofMembers_eq_ok_iff
  | arr items =>
    rcases items with _ | ⟨first, _ | ⟨second, rest⟩⟩
    · simp [ofJson, SpelledBy, Told, empty, eq_comm]
    · simp [ofJson, SpelledBy, Told, bind_eq_ok_iff, Settings.ofJson_eq_ok_iff, pure, Except.pure]
    · simp [ofJson, SpelledBy, Told, bind_eq_ok_iff, throw, throwThe, MonadExceptOf.throw]
  | _ => simp [ofJson, SpelledBy]

/-- A configuration of rules is written as an object with its settings, if it has any. -/
def WrittenAs (config : LintConfig) (value : Json) : Prop :=
  if config.rules = Settings.empty then value = .obj []
  else ∃ rules, config.rules.WrittenAs rules ∧ value = .obj [("rules", rules)]

theorem writtenAs_toJson (config : LintConfig) : config.WrittenAs config.toJson := by
  obtain ⟨⟨entries, ascending⟩⟩ := config
  unfold WrittenAs toJson
  cases entries with
  | nil => rfl
  | cons entry rest =>
    rw [if_neg (by simp [Settings.empty]), if_neg (by simp)]
    exact ⟨_, Settings.writtenAs_toJson _, rfl⟩

theorem WrittenAs.spelledBy {config : LintConfig} {value : Json} (h : config.WrittenAs value) :
    config.SpelledBy value := by
  unfold WrittenAs at h
  split at h
  · next hempty =>
    rw [h]
    exact ⟨nofun, hempty⟩
  · obtain ⟨rules, hrules, rfl⟩ := h
    exact ⟨by simp, rfl, hrules.spelledBy⟩

end LintConfig

/-! ## Configurations of an analysis -/

namespace AnalysisConfig

/-- A configuration is spelled by an object or an array that has its traversal for one part and
its configuration of rules for another. -/
def SpelledBy (config : AnalysisConfig) : Json → Prop
  | .obj members => (∀ member ∈ members, member.1 = "traversal" ∨ member.1 = "lint") ∧
      Told TraversalMode.SpelledBy empty.traversal none config.traversal
        (valuesOf "traversal" members) ∧
      Told LintConfig.SpelledBy empty.lint none config.lint (valuesOf "lint" members)
  | .arr items =>
      Told TraversalMode.SpelledBy empty.traversal none config.traversal (items.take 1) ∧
      Told LintConfig.SpelledBy empty.lint none config.lint (items.drop 1)
  | _ => False

theorem ofMembers_eq_ok_iff {config : AnalysisConfig} {traversal : Option TraversalMode}
    {lint : Option LintConfig} {members : List (String × Json)} :
    ofMembers traversal lint members = .ok config ↔
      (∀ member ∈ members, member.1 = "traversal" ∨ member.1 = "lint") ∧
        Told TraversalMode.SpelledBy empty.traversal traversal config.traversal
          (valuesOf "traversal" members) ∧
        Told LintConfig.SpelledBy empty.lint lint config.lint (valuesOf "lint" members) := by
  fun_induction ofMembers traversal lint members with
  | case1 traversal lint =>
    obtain ⟨mode, rules⟩ := config
    simp [Told, valuesOf, eq_comm]
  | case2 lint value rest heard =>
    rw [valuesOf_cons_self, told_cons]
    simp
  | case3 lint value rest ih =>
    have hmore mode := (ih mode).trans ((and_congr_right' and_comm).trans and_assoc.symm)
    rw [bind_eq_ok_iff_told (fun _ => TraversalMode.ofJson_eq_ok_iff) hmore,
      List.forall_mem_cons, valuesOf_cons_self, valuesOf_cons_of_ne (by decide)]
    tauto
  | case4 traversal value rest heard =>
    rw [valuesOf_cons_self, told_cons]
    simp
  | case5 traversal value rest hne ih =>
    have hmore read := (ih read).trans and_assoc.symm
    rw [bind_eq_ok_iff_told (fun _ => LintConfig.ofJson_eq_ok_iff) hmore, List.forall_mem_cons,
      valuesOf_cons_self, valuesOf_cons_of_ne hne]
    tauto
  | case6 traversal lint name value rest htraversal hlint => simp [htraversal, hlint]

theorem ofJson_eq_ok_iff {value : Json} {config : AnalysisConfig} :
    ofJson value = .ok config ↔ config.SpelledBy value := by
  obtain ⟨mode, lint⟩ := config
  cases value with
  | obj members => exact ofMembers_eq_ok_iff
  | arr items =>
    rcases items with _ | ⟨first, _ | ⟨second, _ | ⟨third, rest⟩⟩⟩
    · simp [ofJson, SpelledBy, Told, empty, eq_comm]
    · rw [ofJson, bind_eq_ok_iff]
      constructor
      · rintro ⟨read, hread, ⟨⟩⟩
        exact ⟨⟨rfl, TraversalMode.ofJson_eq_ok_iff.mp hread⟩, rfl⟩
      · rintro ⟨⟨-, hmode⟩, rfl⟩
        exact ⟨mode, TraversalMode.ofJson_eq_ok_iff.mpr hmode, rfl⟩
    · rw [ofJson, bind_eq_ok_iff]
      constructor
      · rintro ⟨read, hread, hsecond⟩
        obtain ⟨rules, hrules, ⟨⟩⟩ := bind_eq_ok_iff.mp hsecond
        exact ⟨⟨rfl, TraversalMode.ofJson_eq_ok_iff.mp hread⟩, rfl,
          LintConfig.ofJson_eq_ok_iff.mp hrules⟩
      · rintro ⟨⟨-, hmode⟩, -, hlint⟩
        exact ⟨mode, TraversalMode.ofJson_eq_ok_iff.mpr hmode,
          bind_eq_ok_iff.mpr ⟨lint, LintConfig.ofJson_eq_ok_iff.mpr hlint, rfl⟩⟩
    · simp [ofJson, SpelledBy, Told, bind_eq_ok_iff, throw, throwThe, MonadExceptOf.throw]
  | _ => simp [ofJson, SpelledBy]

/-- A configuration is written as an object with a member for its traversal and one for its
configuration of rules, in either order. -/
def WrittenAs (config : AnalysisConfig) (value : Json) : Prop :=
  ∃ lint members, config.lint.WrittenAs lint ∧
    members.Perm [("lint", lint), ("traversal", config.traversal.toJson)] ∧ value = .obj members

theorem writtenAs_toJson (config : AnalysisConfig) : config.WrittenAs config.toJson :=
  ⟨_, _, config.lint.writtenAs_toJson, .refl _, rfl⟩

theorem WrittenAs.spelledBy {config : AnalysisConfig} {value : Json} (h : config.WrittenAs value) :
    config.SpelledBy value := by
  obtain ⟨lint, members, hlint, hperm, rfl⟩ := h
  have htraversal : valuesOf "traversal" members = [config.traversal.toJson] :=
    List.perm_singleton.mp ((hperm.filter _).map _)
  have hrules : valuesOf "lint" members = [lint] :=
    List.perm_singleton.mp ((hperm.filter _).map _)
  refine ⟨fun member hmember => ?_, ?_, ?_⟩
  · have heither := hperm.mem_iff.mp hmember
    simp only [List.mem_cons, List.not_mem_nil, or_false] at heither
    rcases heither with rfl | rfl
    · exact .inr rfl
    · exact .inl rfl
  · rw [htraversal]
    exact ⟨rfl, rfl⟩
  · rw [hrules]
    exact ⟨rfl, hlint.spelledBy⟩

/-- **Reading undoes writing.**  A configuration is read back from what is written for it, in
whichever order the members stand.  A value is read as a configuration exactly if it spells that
one, so a value that is read at all, however its parts are spelled or left out, comes to the same
once it is written and read again. -/
theorem reading_undoes_writing (config : AnalysisConfig) :
    ofJson config.toJson = .ok config ∧
      (∀ value, config.WrittenAs value → ofJson value = .ok config) ∧
      (∀ value, ofJson value = .ok config ↔ config.SpelledBy value) ∧
      ∀ value, (ofJson value >>= fun read => ofJson read.toJson) = ofJson value := by
  have hwritten (config : AnalysisConfig) : ofJson config.toJson = .ok config :=
    ofJson_eq_ok_iff.mpr config.writtenAs_toJson.spelledBy
  refine ⟨hwritten config, fun value h => ofJson_eq_ok_iff.mpr h.spelledBy,
    fun value => ofJson_eq_ok_iff, fun value => ?_⟩
  cases hread : ofJson value with
  | error error => rfl
  | ok read => exact hwritten read

/-- Two rules in the opposite order behind the traversal, and the same spelled in other ways. -/
theorem reading_undoes_writing_reordered :
    let config : AnalysisConfig :=
      ⟨.parallel, ⟨⟨[("Alpha", .off), ("Zeta", .on)], by decide⟩⟩⟩
    ofJson (.obj [("traversal", .str "parallel"),
        ("lint", .obj [("rules", .obj [("Zeta", .str "on"), ("Alpha", .str "off")])])]) =
        .ok config ∧
      ofJson (.obj [("lint", .arr [.obj [("Alpha", .bool false), ("Zeta", .str "true")]]),
        ("traversal", .obj [("parallel", .null)])]) = .ok config := by
  intro config
  obtain ⟨-, hwritten, hspelled, -⟩ := reading_undoes_writing config
  constructor
  · refine hwritten _ ⟨_, _, ?_, .swap .., rfl⟩
    exact ⟨_, ⟨_, .swap .., rfl⟩, rfl⟩
  · refine (hspelled _).mpr ⟨by simp, ⟨rfl, rfl⟩, rfl, rfl, config.lint.rules.entries, ?_, ?_⟩
    · exact .cons ⟨rfl, by simp [Setting.spellings]⟩
        (.cons ⟨rfl, by simp [Setting.spellings]⟩ .nil)
    · exact Settings.ofList_eq_of_perm (.refl _)

end AnalysisConfig
end SpacingLint
