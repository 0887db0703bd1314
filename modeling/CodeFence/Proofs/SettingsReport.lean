import CodeFence.Proofs.SettingsHealing

/-!
# The report of a healing

The file of settings is written anew if the report of a healing names anything.
So the report has to be exact: a setting that it does not name has the value
that was given, a setting that it names has the default, and what is no setting
is named and has no effect.

* `mem_rejected_iff`, `mem_rejected_iff_mem_keys` — what is not taken, among the
  settings and among all other keys;
* `get_heal` — what a healed setting is, if it is reported and if it is not;
* `mem_report_iff`, `heal_congr` — what is no setting is reported, and has no
  effect;
* `report_exact` — what the report says of a healed object.
-/

namespace CodeFence.Settings

variable {around : Surroundings} {given given' : List (String × Json)} {s : Settings} {f : Field}
  {key : String}

/-! ## What is not taken -/

theorem mem_missing (hf : f ∈ fields) :
    f.key ∈ missing given ↔ taken? given (f.key, f.get standard) = none := by
  rw [missing, List.mem_map]
  constructor
  · rintro ⟨d, hd, hkey⟩
    obtain ⟨hmem, hnone⟩ := List.mem_filter.mp hd
    obtain ⟨g, hg, rfl⟩ := mem_entries.mp hmem
    rw [eq_of_key hf hg hkey] at hnone
    exact Option.isNone_iff_eq_none.mp hnone
  · intro hnone
    refine ⟨(f.key, f.get standard), List.mem_filter.mpr ⟨?_, ?_⟩, rfl⟩
    · exact mem_entries.mpr ⟨f, hf, rfl⟩
    · exact Option.isNone_iff_eq_none.mpr hnone

theorem missing_sublist (given : List (String × Json)) :
    (missing given).Sublist (standard.entries.map Prod.fst) :=
  List.Sublist.map Prod.fst List.filter_sublist

/-- Only settings can be missing. -/
theorem mem_keys_of_missing (h : key ∈ missing given) : key ∈ keys :=
  (keys_entries standard).mem_iff.mp ((missing_sublist given).mem h)

theorem nodup_missing (given : List (String × Json)) : (missing given).Nodup :=
  (missing_sublist given).nodup (ascending_entries standard).nodup_keys

theorem mem_unknown : key ∈ unknown given ↔ key ∈ given.map Prod.fst ∧ key ∉ keys := by
  rw [unknown, List.mem_filter]
  refine and_congr_right fun _ => ?_
  simp [keys]

theorem nodup_unknown (h : (given.map Prod.fst).Nodup) : (unknown given).Nodup :=
  List.filter_sublist.nodup h

/-- Renaming keeps the order. -/
theorem ascending_renameCss (h : Ascending given) : Ascending (renameCss given).1 := by
  obtain ⟨css, -, -, hrename⟩ | ⟨-, hrename⟩ := renameCss_cases given
  · rw [hrename]
    exact (h.filter _).insertEntry "customCSS" css
  · rwa [hrename]

/-- The settings that are not taken as given. -/
theorem mem_rejected_iff (hf : f ∈ fields) :
    f.key ∈ rejected given ↔ taken? (renameCss given).1 (f.key, f.get standard) = none := by
  have hkey := key_mem_keys hf
  have hearlier : f.key ≠ earlierCssKey := fun heq => earlierCssKey_not_mem_keys (heq ▸ hkey)
  have hfirst : f.key ∉ if (renameCss given).2 then [earlierCssKey] else [] := by
    split <;> simp [hearlier]
  rw [← mem_missing hf, rejected]
  simp only [List.mem_append, hfirst, mem_unknown, hkey, not_true, and_false, or_false, false_or]

/-- **What is no setting** is not taken, and nothing else that is not there. -/
theorem mem_rejected_iff_mem_keys (hkey : key ∉ keys) :
    key ∈ rejected given ↔ key ∈ given.map Prod.fst := by
  have hmissing : key ∉ missing (renameCss given).1 := fun h => hkey (mem_keys_of_missing h)
  have hcss : key ≠ "customCSS" := by
    rintro rfl
    exact hkey (by decide)
  rw [rejected]
  simp only [List.mem_append, hmissing, or_false, mem_unknown, hkey, not_false_eq_true, and_true]
  obtain ⟨css, -, hsome, hrename⟩ | ⟨-, hrename⟩ := renameCss_cases given
  · rw [hrename]
    by_cases hearlier : key = earlierCssKey
    · subst hearlier
      have hthere : earlierCssKey ∈ given.map Prod.fst := by
        rw [← isSome_lookup_iff, hsome]
        rfl
      simp [hthere]
    · simp only [if_true, List.mem_singleton, hearlier, false_or, mem_keys_insertEntry, hcss]
      rw [← isSome_lookup_iff, lookup_filter_ne, if_neg hearlier, isSome_lookup_iff]
  · simp [hrename]

/-- Nothing is named twice. -/
theorem nodup_rejected (h : Ascending given) : (rejected given).Nodup := by
  have hmissing := nodup_missing (renameCss given).1
  have hunknown := nodup_unknown (ascending_renameCss h).nodup_keys
  have hrest : (missing (renameCss given).1 ++ unknown (renameCss given).1).Nodup := by
    refine List.nodup_append.mpr ⟨hmissing, hunknown, ?_⟩
    rintro key hkey _ hkey' rfl
    exact (mem_unknown.mp hkey').2 (mem_keys_of_missing hkey)
  rw [rejected]
  obtain ⟨css, -, hsome, hrename⟩ | ⟨-, hrename⟩ := renameCss_cases given
  · -- the earlier name is taken out, so it is not among the unknown keys
    have hgone : earlierCssKey ∉ (renameCss given).1.map Prod.fst := by
      rw [hrename, mem_keys_insertEntry, ← isSome_lookup_iff, lookup_filter_ne, if_pos rfl]
      simp [earlierCssKey]
    have hnew : earlierCssKey ∉ missing (renameCss given).1 ++ unknown (renameCss given).1 := by
      intro hmem
      rcases List.mem_append.mp hmem with hkey | hkey
      · exact earlierCssKey_not_mem_keys (mem_keys_of_missing hkey)
      · exact hgone (mem_unknown.mp hkey).1
    rw [hrename] at hrest hnew ⊢
    rw [if_pos rfl, List.append_assoc, List.singleton_append]
    exact List.nodup_cons.mpr ⟨hnew, hrest⟩
  · rw [hrename] at hrest ⊢
    rwa [if_neg Bool.false_ne_true, List.nil_append]

/-! ## What is reported -/

theorem nodup_failed (around : Surroundings) (s : Settings) :
    (failed (checks around s) s).Nodup :=
  (List.Sublist.map _ List.filter_sublist).nodup (nodup_checks around s)

/-- Only settings are repaired. -/
theorem mem_keys_of_repair (h : key ∈ (repair around s).2) : key ∈ keys := by
  rw [repair_snd] at h
  obtain ⟨c, hc, -, rfl⟩ := mem_failed.mp h
  obtain ⟨f, hf, hguards⟩ := guards around s c hc
  exact hguards.key ▸ key_mem_keys hf

/-- **What healed settings have**, in terms of the report. -/
theorem get_heal (around : Surroundings) (given : List (String × Json)) (hf : f ∈ fields) :
    (f.key ∈ (heal around (.object given)).2 →
      f.get (heal around (.object given)).1 = f.get standard) ∧
    (f.key ∉ (heal around (.object given)).2 →
      given? given f.key = some (f.get (heal around (.object given)).1)) := by
  obtain ⟨a, -, hvalues, hhealed, hreport⟩ := heal_object around given
  have hmem : f.key ∈ (heal around (.object given)).2 ↔
      f.key ∈ rejected given ∨ f.key ∈ (repair around a).2 := by
    rw [hreport, List.mem_append, List.mem_filter]
    by_cases hrejected : f.key ∈ rejected given <;> simp [hrejected]
  have hvalue := hvalues f hf
  have hget := get_repair around a hf
  rw [hhealed, hmem, mem_rejected_iff hf, not_or]
  constructor
  · rintro (hnone | hreset)
    · rw [Field.chosen, hnone, Option.getD_none] at hvalue
      rw [hget, hvalue, ite_self]
    · rw [hget, if_pos hreset]
  · rintro ⟨htaken, hreset⟩
    obtain ⟨v, hv⟩ := Option.ne_none_iff_exists'.mp htaken
    rw [Field.chosen, hv, Option.getD_some] at hvalue
    rw [hget, if_neg hreset, hvalue, ← lookup_renameCss_key hf]
    exact (taken?_eq_some_iff.mp hv).1

/-- Nothing is reported twice. -/
theorem nodup_heal (around : Surroundings) (h : Ascending given) :
    (heal around (.object given)).2.Nodup := by
  obtain ⟨a, -, -, -, hreport⟩ := heal_object around given
  rw [hreport]
  refine List.nodup_append.mpr ⟨nodup_rejected h, ?_, ?_⟩
  · rw [repair_snd]
    exact (nodup_failed around a).filter _
  · rintro key hkey _ hkey' rfl
    simp [hkey] at hkey'

/-- What is no setting is reported if it is there. -/
theorem mem_report_iff (around : Surroundings) (hkey : key ∉ keys) :
    key ∈ (heal around (.object given)).2 ↔ key ∈ given.map Prod.fst := by
  obtain ⟨a, -, -, -, hreport⟩ := heal_object around given
  rw [hreport, List.mem_append, mem_rejected_iff_mem_keys hkey]
  have hrepair : key ∉ (repair around a).2 := fun h => hkey (mem_keys_of_repair h)
  simp [hrepair]

/-- **Only what is given for the settings counts.** -/
theorem heal_congr (around : Surroundings)
    (h : ∀ key ∈ keys, given? given' key = given? given key) :
    (heal around (.object given')).1 = (heal around (.object given)).1 := by
  obtain ⟨a, -, hvalues, hhealed, -⟩ := heal_object around given
  obtain ⟨a', -, hvalues', hhealed', -⟩ := heal_object around given'
  have hsame : a' = a := ext_get fun f hf => by
    rw [hvalues f hf, hvalues' f hf, Field.chosen, Field.chosen, taken?, taken?,
      lookup_renameCss_key hf, lookup_renameCss_key hf, h f.key (key_mem_keys hf)]
  rw [hhealed, hhealed', hsame]

/-- Where nothing is reported, all keys are settings. -/
theorem lookup_eq_none_of_not_mem_keys (hnone : (heal around (.object given)).2 = [])
    (hkey : key ∉ keys) : given.lookup key = none := by
  have hnot : key ∉ given.map Prod.fst := by
    rw [← mem_report_iff around hkey, hnone]
    exact List.not_mem_nil
  exact lookup_eq_none_iff_not_mem.mpr hnot

/-- Where nothing is reported, the settings are what was given. -/
theorem given_eq_entries (h : Ascending given) (hnone : (heal around (.object given)).2 = []) :
    given = (heal around (.object given)).1.entries := by
  refine h.eq_of_lookup (ascending_entries _) fun key => ?_
  by_cases hkey : key ∈ keys
  · obtain ⟨f, hf, rfl⟩ := List.mem_map.mp hkey
    have hgiven := (get_heal around given hf).2 (hnone ▸ List.not_mem_nil)
    -- an earlier name would be reported, so nothing was renamed
    have hearlier := lookup_eq_none_of_not_mem_keys hnone earlierCssKey_not_mem_keys
    rw [lookup_entries hf, ← hgiven, given?, hearlier]
    cases given.lookup f.key <;> simp
  · have hnot : key ∉ (heal around (.object given)).1.entries.map Prod.fst :=
      fun hmem => hkey ((keys_entries _).mem_iff.mp hmem)
    rw [lookup_eq_none_iff_not_mem.mpr hnot, lookup_eq_none_of_not_mem_keys hnone hkey]

/-- **The report is exact.**  It names no key twice.  A setting that it does not
name has the value that was given for it, and one that it names has the default.
Of all other keys it names those that are there, and these have no effect.
Settings can always be made of what was taken.  And nothing is reported only if
the object says just these settings. -/
theorem report_exact (around : Surroundings) (h : Ascending given) :
    let s := (heal around (.object given)).1
    let report := (heal around (.object given)).2
    report.Nodup ∧
    (∀ key ∈ keys, key ∉ report → s.entries.lookup key = given? given key) ∧
    (∀ key ∈ keys, key ∈ report → s.entries.lookup key = standard.entries.lookup key) ∧
    (∀ key ∉ keys, key ∈ report ↔ key ∈ given.map Prod.fst) ∧
    (∀ given', (∀ key ∈ keys, given? given' key = given? given key) →
      (heal around (.object given')).1 = s) ∧
    ofEntries? (merge (renameCss given).1) ≠ none ∧
    (report = [] ↔ Json.object given = .object s.entries) := by
  refine ⟨nodup_heal around h, ?_, ?_, fun key hkey => mem_report_iff around hkey,
    fun given' => heal_congr around, ?_, ?_⟩
  · intro key hkey hnot
    obtain ⟨f, hf, rfl⟩ := List.mem_map.mp hkey
    rw [lookup_entries hf, (get_heal around given hf).2 hnot]
  · intro key hkey hreported
    obtain ⟨f, hf, rfl⟩ := List.mem_map.mp hkey
    rw [lookup_entries hf, lookup_entries hf, (get_heal around given hf).1 hreported]
  · obtain ⟨a, hspelled, -⟩ := heal_object around given
    rw [hspelled]
    exact Option.some_ne_none a
  · constructor
    · intro hnone
      exact congrArg Json.object (given_eq_entries h hnone)
    · intro heq
      rw [heq, (healthy_heal around (.object given)).heal_entries]

/-- Entries with an earlier name, a useless value and an unknown key. -/
def mixedEntries : List (String × Json) :=
  [("customCss", .string "pre"), ("fontSize", .string " "), ("zoom", Json.ofNat 2)]

/-- The style is kept, and the unknown key is reported. -/
theorem report_mixedEntries :
    Ascending mixedEntries ∧
      (heal {} (.object mixedEntries)).1.entries.lookup "customCSS" = some (.string "pre") ∧
      "zoom" ∈ (heal {} (.object mixedEntries)).2 := by
  have hmixed : Ascending mixedEntries := by decide
  obtain ⟨-, hkept, -, hother, -⟩ := report_exact {} hmixed
  refine ⟨hmixed, ?_, (hother "zoom" (by decide)).mpr (by decide)⟩
  have hgiven : given? mixedEntries "customCSS" = some (.string "pre") := rfl
  rw [← hgiven]
  exact hkept "customCSS" (by decide) (by decide +kernel)

end CodeFence.Settings
