import CodeFence.Proofs.SettingsFields

/-!
# Repaired settings

Each check looks at one setting and gives it its default if it is useless.  No
check sees what another one does, and every default passes its own check.  So a
repair resets exactly the settings that were useless at the outset, and after it
there is nothing left to repair.

* `Check.Guards`, `guards` — every check looks at one field;
* `failed`, `foldl_run` — the keys of what is useless, and what a run of checks
  does to it;
* `repair_snd`, `get_repair` — what a repair reports, and what it leaves;
* `Useful.repair_eq` — useful settings are left alone;
* `useful_repair` — after a repair every setting is useful.
-/

namespace CodeFence.Settings

variable {around : Surroundings} {given s s' : Settings} {f : Field} {c : Check}

/-! ## One check -/

/-- A check looks at one field, to which it gives the default if need be; the
default passes. -/
structure Check.Guards (c : Check) (f : Field) : Prop where
  key : c.key = f.key
  reset : ∀ s, f.set? s (f.get standard) = some (c.reset s)
  sees : ∀ s s', f.get s = f.get s' → c.isUseful s = c.isUseful s'
  default : c.isUseful standard = true

section

variable {key : String} {reset : Settings → Settings}

theorem guards_text {get : Settings → String} {set : Settings → String → Settings}
    {p : String → Bool} (hreset : ∀ s, reset s = set s (get standard))
    (h : p (get standard) = true) :
    Check.Guards ⟨key, fun s => p (get s), reset⟩
      (.text key get set) where
  key := rfl
  reset s := set?_text.mpr ⟨_, rfl, hreset s⟩
  sees _ _ hget := congrArg p (Json.string.inj hget)
  default := h

theorem guards_count {get : Settings → Nat} {set : Settings → Nat → Settings}
    {p : Nat → Bool} (hreset : ∀ s, reset s = set s (get standard))
    (h : p (get standard) = true)
    (hrange : get standard < Text.bitBound 32) :
    Check.Guards ⟨key, fun s => p (get s), reset⟩
      (.count key get set) where
  key := rfl
  reset s := set?_count.mpr ⟨_, rfl, hrange, hreset s⟩
  sees _ _ hget := congrArg p (Json.Number.natural.inj (Json.number.inj hget))
  default := h

theorem guards_texts {get : Settings → List String} {set : Settings → List String → Settings}
    {p : List String → Bool} (hreset : ∀ s, reset s = set s (get standard))
    (h : p (get standard) = true) :
    Check.Guards ⟨key, fun s => p (get s), reset⟩
      (.texts key get set) where
  key := rfl
  reset s := set?_texts.mpr ⟨_, rfl, hreset s⟩
  sees _ _ hget := by
    have hlists := Json.array.inj hget
    exact congrArg p ((List.map_inj_right fun _ _ h => Json.string.inj h).mp hlists)
  default := h

end

/-- There is always a theme that is built in. -/
theorem hasTheme_of_builtin {id : String} (h : (Theme.builtin? id).isSome = true) :
    given.hasTheme around id = true := by
  simp [hasTheme, Theme.isKnown, h]

/-- **Every check looks at one field.** -/
theorem guards (around : Surroundings) (given : Settings) :
    ∀ c ∈ checks around given, ∃ f ∈ fields, c.Guards f := by
  simp only [checks, List.forall_mem_cons]
  have hlist : isUsefulList standard.languages = true ∧ isUsefulList standard.themes = true := by
    decide
  have hcount : 1 ≤ standard.maxCacheSize ∧ 1 ≤ standard.cacheExpirationDays := by decide
  have htext : (!Text.isBlankText standard.fontSize) = true ∧
      (!Text.isBlankText standard.fontFamily) = true ∧
      (!Text.isBlankText standard.fallbackLanguage) = true := by
    decide
  have htheme : given.hasTheme around standard.defaultTheme = true ∧
      given.hasTheme around standard.darkTheme = true ∧
      given.hasTheme around standard.lightTheme = true :=
    ⟨hasTheme_of_builtin (by decide), hasTheme_of_builtin (by decide),
      hasTheme_of_builtin (by decide)⟩
  have hfield : ∀ i (h : i < fields.length), fields[i] ∈ fields := fun _ h => List.getElem_mem h
  refine ⟨⟨fields[12], hfield 12 (by decide), ?_⟩, ⟨fields[5], hfield 5 (by decide), ?_⟩,
    ⟨fields[16], hfield 16 (by decide), ?_⟩, ⟨fields[17], hfield 17 (by decide), ?_⟩,
    ⟨fields[19], hfield 19 (by decide), ?_⟩, ⟨fields[20], hfield 20 (by decide), ?_⟩,
    ⟨fields[14], hfield 14 (by decide), ?_⟩, ⟨fields[0], hfield 0 (by decide), ?_⟩,
    ⟨fields[1], hfield 1 (by decide), ?_⟩, ⟨fields[2], hfield 2 (by decide), ?_⟩, by simp⟩
  · exact guards_texts (p := isUsefulList) (fun _ => rfl) hlist.1
  · exact guards_texts (p := isUsefulList) (fun _ => rfl) hlist.2
  · exact guards_count (p := (1 ≤ ·)) (fun _ => rfl) (decide_eq_true hcount.1) (by decide)
  · exact guards_count (p := (1 ≤ ·)) (fun _ => rfl) (decide_eq_true hcount.2) (by decide)
  · exact guards_text (p := (!Text.isBlankText ·)) (fun _ => rfl) htext.1
  · exact guards_text (p := (!Text.isBlankText ·)) (fun _ => rfl) htext.2.1
  · exact guards_text (p := (!Text.isBlankText ·)) (fun _ => rfl) htext.2.2
  · exact guards_text (p := given.hasTheme around) (fun _ => rfl) htheme.1
  · exact guards_text (p := given.hasTheme around) (fun _ => rfl) htheme.2.1
  · exact guards_text (p := given.hasTheme around) (fun _ => rfl) htheme.2.2

theorem nodup_checks (around : Surroundings) (given : Settings) :
    ((checks around given).map (·.key)).Nodup := by
  simp [checks]

/-- A check that fails changes one setting, and no other one. -/
theorem Check.Guards.get_reset (h : c.Guards f) (hf : f ∈ fields) {g : Field} (hg : g ∈ fields)
    (s : Settings) :
    g.get (c.reset s) = if g.key = c.key then g.get standard else g.get s := by
  rw [get_of_set? hf hg (h.reset s), h.key]
  by_cases hkey : g.key = f.key
  · rw [if_pos hkey, if_pos hkey, eq_of_key hf hg hkey]
  · rw [if_neg hkey, if_neg hkey]

/-- A check does not see what another one does. -/
theorem Check.Guards.isUseful_reset {c' : Check} {f' : Field} (h : c.Guards f) (hf : f ∈ fields)
    (h' : c'.Guards f') (hf' : f' ∈ fields) (hne : c'.key ≠ c.key) (s : Settings) :
    c'.isUseful (c.reset s) = c'.isUseful s := by
  refine h'.sees _ _ ?_
  rw [h.get_reset hf hf', if_neg (h'.key ▸ hne)]

/-! ## All checks -/

/-- The keys of the settings that fail their checks. -/
def failed (cs : List Check) (s : Settings) : List String :=
  (cs.filter fun c => !c.isUseful s).map (·.key)

theorem mem_failed {cs : List Check} {key : String} :
    key ∈ failed cs s ↔ ∃ c ∈ cs, c.isUseful s = false ∧ c.key = key := by
  simp [failed, and_assoc]

theorem failed_cons_of_useful {cs : List Check} (h : c.isUseful s = true) :
    failed (c :: cs) s = failed cs s := by
  simp [failed, h]

theorem failed_cons_of_useless {cs : List Check} (h : c.isUseful s = false) :
    failed (c :: cs) s = c.key :: failed cs s := by
  simp [failed, h]

/-- **A run of checks** resets the settings that failed at the outset, and no
others. -/
theorem foldl_run {cs : List Check} (hcs : ∀ c ∈ cs, ∃ f ∈ fields, c.Guards f)
    (hnodup : (cs.map (·.key)).Nodup) (s : Settings) (before : List String) :
    (cs.foldl (fun r c => c.run r) (s, before)).2 = before ++ failed cs s ∧
      ∀ g ∈ fields, g.get (cs.foldl (fun r c => c.run r) (s, before)).1 =
        if g.key ∈ failed cs s then g.get standard else g.get s := by
  induction cs generalizing s before with
  | nil => simp [failed]
  | cons c rest ih =>
      obtain ⟨⟨f, hf, hguards⟩, hrest⟩ := List.forall_mem_cons.mp hcs
      rw [List.map_cons, List.nodup_cons] at hnodup
      cases hc : c.isUseful s with
      | true =>
          have hrun : c.run (s, before) = (s, before) := by simp [Check.run, hc]
          rw [List.foldl_cons, hrun, failed_cons_of_useful hc]
          exact ih hrest hnodup.2 s before
      | false =>
          have hrun : c.run (s, before) = (c.reset s, before ++ [c.key]) := by
            simp [Check.run, hc]
          -- what the first check changes is not seen by those that follow
          have hsame : failed rest (c.reset s) = failed rest s := by
            refine congrArg (List.map _) (List.filter_congr fun c' hc' => ?_)
            obtain ⟨f', hf', hguards'⟩ := hrest c' hc'
            have hne : c'.key ≠ c.key := fun heq =>
              hnodup.1 (List.mem_map.mpr ⟨c', hc', heq⟩)
            rw [hguards.isUseful_reset hf hguards' hf' hne]
          obtain ⟨hfailed, hget⟩ := ih hrest hnodup.2 (c.reset s) (before ++ [c.key])
          rw [List.foldl_cons, hrun, failed_cons_of_useless hc]
          refine ⟨?_, fun g hg => ?_⟩
          · rw [hfailed, hsame, List.append_assoc]
            rfl
          · rw [hget g hg, hsame, hguards.get_reset hf hg]
            by_cases hkey : g.key = c.key
            · simp [hkey]
            · simp [hkey]

/-- What a repair reports. -/
theorem repair_snd (around : Surroundings) (s : Settings) :
    (repair around s).2 = failed (checks around s) s :=
  (foldl_run (guards around s) (nodup_checks around s) s []).1

/-- **What a repair leaves**: the defaults of what it reports, and all else. -/
theorem get_repair (around : Surroundings) (s : Settings) (hf : f ∈ fields) :
    f.get (repair around s).1 =
      if f.key ∈ (repair around s).2 then f.get standard else f.get s := by
  rw [repair_snd]
  exact (foldl_run (guards around s) (nodup_checks around s) s []).2 f hf

/-- Settings with nothing useless. -/
def Useful (around : Surroundings) (s : Settings) : Prop :=
  ∀ c ∈ checks around s, c.isUseful s = true

/-- **Useful settings are left alone.** -/
theorem Useful.repair_eq (h : Useful around s) : repair around s = (s, []) := by
  have hnone : (repair around s).2 = [] := by
    rw [repair_snd, List.eq_nil_iff_forall_not_mem]
    intro key hkey
    obtain ⟨c, hc, huseless, -⟩ := mem_failed.mp hkey
    rw [h c hc] at huseless
    cases huseless
  have hsame : (repair around s).1 = s := ext_get fun f hf => by
    rw [get_repair around s hf, hnone, if_neg List.not_mem_nil]
  exact Prod.ext hsame hnone

/-- No check looks at the directory of themes. -/
theorem customThemePath_repair (around : Surroundings) (s : Settings) :
    (repair around s).1.customThemePath = s.customThemePath := by
  have hfield : fields[4] ∈ fields := List.getElem_mem _
  have hkey : fields[4].key ∉ (repair around s).2 := by
    rw [repair_snd]
    intro hmem
    obtain ⟨c, hc, -, heq⟩ := mem_failed.mp hmem
    have hkeys : "customThemePath" ∈ (checks around s).map (·.key) :=
      List.mem_map.mpr ⟨c, hc, heq⟩
    simp [checks] at hkeys
  have hget := get_repair around s hfield
  rw [if_neg hkey] at hget
  exact Json.string.inj hget

/-- Themes are looked for in the same directories after a repair. -/
theorem checks_repair (around : Surroundings) (s : Settings) :
    checks around (repair around s).1 = checks around s := by
  have hthemes : (repair around s).1.hasTheme around = s.hasTheme around := by
    funext id
    rw [hasTheme, hasTheme, themeDirectories, customThemePath_repair, themeDirectories]
  rw [checks, checks, hthemes]

/-- **After a repair there is nothing left to repair.** -/
theorem useful_repair (around : Surroundings) (s : Settings) :
    Useful around (repair around s).1 := by
  intro c hc
  rw [checks_repair] at hc
  obtain ⟨f, hf, hguards⟩ := guards around s c hc
  have hget := get_repair around s hf
  rw [← hguards.key] at hget
  by_cases hkey : c.key ∈ (repair around s).2
  · rw [if_pos hkey] at hget
    rw [hguards.sees _ _ hget]
    exact hguards.default
  · rw [if_neg hkey] at hget
    rw [hguards.sees _ _ hget]
    cases huseful : c.isUseful s with
    | true => rfl
    | false =>
        rw [repair_snd] at hkey
        exact absurd (mem_failed.mpr ⟨c, hc, huseful, rfl⟩) hkey

/-- A repair keeps the shapes. -/
theorem WellShaped.repair (h : s.WellShaped) (around : Surroundings) :
    (Settings.repair around s).1.WellShaped := by
  intro f hf
  rw [get_repair around s hf]
  split
  · exact wellShaped_standard f hf
  · exact h f hf

end CodeFence.Settings
