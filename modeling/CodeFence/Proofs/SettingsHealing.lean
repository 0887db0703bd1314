import CodeFence.Proofs.SettingsRepair
import CodeFence.Proofs.SettingsText
import CodeFence.Settings.File

/-!
# Healed settings

Any object gives a value for every setting: the one that it has under the key of
the setting, if that has the right shape, and the default otherwise.  So there
are always settings with these values, and after their repair they are as good
as settings can be.  To heal them again changes nothing, and the report is
empty.

* `given?`, `lookup_renameCss` — what an object gives for a setting;
* `exists_ofEntries?_merge` — the chosen values always spell out settings;
* `Healthy`, `healthy_heal` — settings that can be written and are useful;
* `Healthy.heal_entries`, `Healthy.importText_render` — healthy settings are
  healed and imported as they are;
* `heal_converges` — so one healing is enough.
-/

namespace CodeFence.Settings

variable {around : Surroundings} {given : List (String × Json)} {s : Settings} {f : Field}
  {key : String}

/-! ## The earlier name -/

/-- What entries give for a setting.  What stands under the earlier name of
`customCSS` counts if nothing stands under that key itself. -/
def given? (entries : List (String × Json)) (key : String) : Option Json :=
  match entries.lookup key with
  | some v => some v
  | none => if key = "customCSS" then entries.lookup earlierCssKey else none

theorem earlierCssKey_not_mem_keys : earlierCssKey ∉ keys := by
  decide

/-- The earlier name is replaced if it stands alone; else nothing happens. -/
theorem renameCss_cases (given : List (String × Json)) :
    (∃ css, given.lookup "customCSS" = none ∧ given.lookup earlierCssKey = some css ∧
      renameCss given =
        (insertEntry "customCSS" css (given.filter (·.1 ≠ earlierCssKey)), true)) ∨
    (given.lookup "customCSS" = none → given.lookup earlierCssKey = none) ∧
      renameCss given = (given, false) := by
  unfold renameCss
  split
  · rename_i css hnone hsome
    exact Or.inl ⟨css, hnone, hsome, rfl⟩
  · rename_i hother
    refine Or.inr ⟨fun hnone => ?_, rfl⟩
    cases hearlier : given.lookup earlierCssKey with
    | none => rfl
    | some css => exact absurd hearlier (hother css hnone)

/-- **After the renaming** everything stands under the key that it is given for. -/
theorem lookup_renameCss (hkey : key ≠ earlierCssKey) :
    (renameCss given).1.lookup key = given? given key := by
  obtain ⟨css, hnone, hsome, hrename⟩ | ⟨hnone, hrename⟩ := renameCss_cases given
  · by_cases hcss : key = "customCSS"
    · subst hcss
      simp [hrename, given?, hnone, hsome, lookup_insertEntry_self]
    · rw [hrename, lookup_insertEntry_of_ne hcss, lookup_filter_ne, if_neg hkey, given?,
        if_neg hcss]
      cases given.lookup key <;> rfl
  · rw [hrename, given?]
    cases hlookup : given.lookup key with
    | some v => rfl
    | none =>
        by_cases hcss : key = "customCSS"
        · subst hcss
          rw [if_pos rfl, hnone hlookup]
        · rw [if_neg hcss]

theorem lookup_renameCss_key (hf : f ∈ fields) :
    (renameCss given).1.lookup f.key = given? given f.key :=
  lookup_renameCss fun heq => earlierCssKey_not_mem_keys (heq ▸ key_mem_keys hf)

/-! ## The chosen values -/

/-- What a setting becomes: the value that is given for it, if it has the shape
of the default, and else the default. -/
def Field.chosen (f : Field) (given : List (String × Json)) : Json :=
  (taken? given (f.key, f.get standard)).getD (f.get standard)

theorem taken?_eq_some_iff {d : String × Json} {v : Json} :
    taken? given d = some v ↔ given.lookup d.1 = some v ∧ sameShape v d.2 = true := by
  rw [taken?, Option.filter_eq_some_iff]

theorem lookup_merge (hf : f ∈ fields) :
    (merge given).lookup f.key = some (f.chosen given) := by
  rw [merge, lookup_map_value, lookup_entries hf]
  rfl

/-- A chosen value has the right shape. -/
theorem sameShape_chosen (hf : f ∈ fields) :
    sameShape (f.chosen given) (f.get standard) = true := by
  rw [Field.chosen]
  cases htaken : taken? given (f.key, f.get standard) with
  | none => exact wellShaped_standard f hf
  | some v => exact (taken?_eq_some_iff.mp htaken).2

/-- **The chosen values always spell out settings**, whatever is given. -/
theorem exists_ofEntries?_merge (given : List (String × Json)) :
    ∃ a, ofEntries? (merge given) = some a ∧ ∀ f ∈ fields, f.get a = f.chosen given := by
  obtain ⟨a, hspelled, hfound⟩ := exists_ofEntries? fun f hf =>
    ⟨f.chosen given, lookup_merge hf, sameShape_chosen hf⟩
  refine ⟨a, hspelled, fun f hf => ?_⟩
  exact Option.some.inj ((hfound f hf).symm.trans (lookup_merge hf))

/-! ## Healthy settings -/

/-- Settings that can be written and read, with nothing useless among them. -/
structure Healthy (around : Surroundings) (s : Settings) : Prop where
  shaped : s.WellShaped
  useful : Useful around s

/-- Every default passes its check, wherever themes are looked for. -/
theorem healthy_standard (around : Surroundings) : Healthy around standard where
  shaped := wellShaped_standard
  useful c hc := by
    obtain ⟨f, -, hguards⟩ := guards around standard c hc
    exact hguards.default

theorem WellShaped.healthy_repair (h : s.WellShaped) (around : Surroundings) :
    Healthy around (Settings.repair around s).1 where
  shaped := h.repair around
  useful := useful_repair around s

/-- **What healing does to an object.**  It repairs the settings that have the
chosen values. -/
theorem heal_object (around : Surroundings) (given : List (String × Json)) :
    ∃ a : Settings, ofEntries? (merge (renameCss given).1) = some a ∧
      (∀ f ∈ fields, f.get a = f.chosen (renameCss given).1) ∧
      (heal around (.object given)).1 = (repair around a).1 ∧
      (heal around (.object given)).2 = rejected given ++
        (repair around a).2.filter fun key => !(rejected given).contains key := by
  obtain ⟨a, hspelled, hvalues⟩ := exists_ofEntries?_merge (renameCss given).1
  refine ⟨a, hspelled, hvalues, ?_⟩
  rw [heal, healEntries, hspelled, Option.elim_some]
  generalize repair around a = repaired
  exact ⟨rfl, rfl⟩

/-- **Healing always leads to healthy settings.** -/
theorem healthy_heal (around : Surroundings) (v : Json) : Healthy around (heal around v).1 := by
  cases v with
  | object given =>
      obtain ⟨a, -, hvalues, hhealed, -⟩ := heal_object around given
      have hshaped : a.WellShaped := fun f hf => by
        rw [hvalues f hf]
        exact sameShape_chosen hf
      rw [hhealed]
      exact hshaped.healthy_repair around
  | _ => simpa only [heal] using healthy_standard around

/-- So do all ways of loading a file. -/
theorem healthy_load (env : Environment) (files : FileStore) (path : String) :
    Healthy ⟨files, env⟩ (load env files path).1.settings := by
  have hfinish : ∀ (files : FileStore) (s : Settings) (repaired : List String),
      (finish files path s repaired).1.settings = s := by
    intro files s repaired
    rw [finish]
    split <;> rfl
  rw [load]
  split
  · exact healthy_standard _
  · split
    · rw [hfinish]
      exact healthy_heal _ _
    · rw [hfinish]
      exact healthy_standard _

/-! ## Healing again -/

theorem WellShaped.taken?_entries (h : s.WellShaped) (hf : f ∈ fields) :
    taken? s.entries (f.key, f.get standard) = some (f.get s) :=
  taken?_eq_some_iff.mpr ⟨lookup_entries hf s, h f hf⟩

theorem renameCss_entries (s : Settings) : renameCss s.entries = (s.entries, false) := by
  have hcss : s.entries.lookup "customCSS" = some (fields[26].get s) :=
    lookup_entries (f := fields[26]) (List.getElem_mem _) s
  obtain ⟨css, hnone, -⟩ | ⟨-, hrename⟩ := renameCss_cases s.entries
  · rw [hcss] at hnone
    cases hnone
  · exact hrename

/-- Nothing in the entries of settings is rejected. -/
theorem WellShaped.rejected_entries (h : s.WellShaped) : rejected s.entries = [] := by
  have hmissing : missing s.entries = [] := by
    rw [missing, List.map_eq_nil_iff, List.filter_eq_nil_iff]
    intro d hd
    obtain ⟨f, hf, rfl⟩ := mem_entries.mp hd
    simp [h.taken?_entries hf]
  have hunknown : unknown s.entries = [] := by
    rw [unknown, List.filter_eq_nil_iff]
    intro key hkey
    obtain ⟨f, hf, rfl⟩ := List.mem_map.mp ((keys_entries s).mem_iff.mp hkey)
    simpa using ⟨f, hf, rfl⟩
  rw [rejected, renameCss_entries, hmissing, hunknown]
  rfl

/-- **Healthy settings are healed as they are.** -/
theorem Healthy.heal_entries (h : Healthy around s) :
    heal around (.object s.entries) = (s, []) := by
  obtain ⟨a, -, hvalues, hhealed, hreport⟩ := heal_object around s.entries
  have hsame : a = s := ext_get fun f hf => by
    rw [hvalues f hf, renameCss_entries, Field.chosen, h.shaped.taken?_entries hf]
    rfl
  rw [hsame, h.useful.repair_eq] at hhealed hreport
  rw [h.shaped.rejected_entries] at hreport
  exact Prod.ext hhealed hreport

/-- **Healthy settings are imported as they were exported.** -/
theorem Healthy.importText_render (h : Healthy around s) :
    importText around s.render = .ok (s, []) := by
  have hrequired : requiredKeys.filter (fun key => (s.entries.lookup key).isNone) = [] := by
    have hkeys : requiredKeys.all (keys.contains ·) = true := by decide
    rw [List.filter_eq_nil_iff]
    intro key hkey
    have hkey : key ∈ keys := List.contains_iff_mem.mp (List.all_eq_true.mp hkeys key hkey)
    obtain ⟨f, hf, rfl⟩ := List.mem_map.mp hkey
    simp [lookup_entries hf s]
  rw [importText, h.shaped.parse?_render]
  simp [hrequired, h.heal_entries]

/-- **One healing is enough.**  There is nothing to repair in healed settings,
their text says their entries, and from these they are healed and imported as
they are.  So are all settings that were loaded. -/
theorem heal_converges (around : Surroundings) :
    (∀ v, let s := (heal around v).1
      repair around s = (s, []) ∧
      Json.parse? s.render = some (.object s.entries) ∧
      heal around (.object s.entries) = (s, []) ∧
      importText around s.render = .ok (s, [])) ∧
    ∀ path, let s := (load around.environment around.files path).1.settings
      importText around s.render = .ok (s, []) := by
  constructor
  · intro v
    have hhealthy := healthy_heal around v
    exact ⟨hhealthy.useful.repair_eq, hhealthy.shaped.parse?_render, hhealthy.heal_entries,
      hhealthy.importText_render⟩
  · intro path
    exact (healthy_load around.environment around.files path).importText_render

end CodeFence.Settings
