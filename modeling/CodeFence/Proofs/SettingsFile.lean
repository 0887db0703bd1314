import CodeFence.Proofs.FileStores
import CodeFence.Proofs.SettingsHealing

/-!
# The file of settings, loaded again

A load writes healed settings back.  These are healthy, they stay so in the new
state of the files, and their text says what they are.  So the next load finds
nothing to heal, and writes nothing.

* `Healthy.of_keeps` — settings stay healthy while files are written;
* `save_eq_ok` — what a successful save leaves;
* `Healthy.load_render`, `load_cases` — what a load finds, and what it does;
* `load_again` — the next load is clean, after a load that repaired nothing, or
  that saved what it repaired.
-/

namespace CodeFence.Settings

open FileStore (Keeps)

variable {env : Environment} {files files' : FileStore} {path : String} {s : Settings}

/-! ## Healthy settings among other files -/

/-- A theme that is known stays so. -/
theorem isKnown_of_keeps (h : Keeps files files') {id : String} {directories : List String}
    (hknown : Theme.isKnown files id directories = true) :
    Theme.isKnown files' id directories = true := by
  unfold Theme.isKnown at hknown ⊢
  rcases (Bool.or_eq_true ..).mp hknown with hbuiltin | hfile
  · rw [hbuiltin, Bool.true_or]
  · rw [Bool.or_eq_true]
    refine Or.inr ?_
    unfold Theme.findFile? at hfile ⊢
    by_cases hsafe : Theme.isSafeId id = true
    · rw [if_pos hsafe, List.find?_isSome] at hfile ⊢
      obtain ⟨p, hp, hisFile⟩ := hfile
      exact ⟨p, hp, h.isFile hisFile⟩
    · rw [if_neg hsafe] at hfile
      cases hfile

theorem hasTheme_of_keeps (h : Keeps files files') {id : String}
    (hknown : s.hasTheme ⟨files, env⟩ id = true) : s.hasTheme ⟨files', env⟩ id = true :=
  isKnown_of_keeps h hknown

/-- **Settings stay healthy** while files are written. -/
theorem Healthy.of_keeps (h : Healthy ⟨files, env⟩ s) (hkeeps : Keeps files files') :
    Healthy ⟨files', env⟩ s := by
  refine ⟨h.shaped, ?_⟩
  have huseful := h.useful
  simp only [Useful, checks, List.forall_mem_cons] at huseful ⊢
  obtain ⟨h1, h2, h3, h4, h5, h6, h7, hdefault, hdark, hlight, hrest⟩ := huseful
  exact ⟨h1, h2, h3, h4, h5, h6, h7, hasTheme_of_keeps hkeeps hdefault,
    hasTheme_of_keeps hkeeps hdark, hasTheme_of_keeps hkeeps hlight, by simp⟩

/-! ## Saving and loading -/

/-- **What a successful save leaves**: all that was there, and the text of the
settings. -/
theorem save_eq_ok (h : save files path s = (files', .ok ())) :
    Keeps files files' ∧ files'.readText path = .ok s.render := by
  unfold save at h
  dsimp only at h
  split at h
  · cases h
  · rename_i made hmade
    split at h
    · rename_i written hwritten
      obtain rfl : written = files' := congrArg Prod.fst h
      exact ⟨(FileStore.keeps_makeDirectories hmade).trans (FileStore.keeps_write hwritten),
        FileStore.readText_writeText hwritten⟩
    · cases h

/-- **A load finds nothing to do** where healthy settings were written. -/
theorem Healthy.load_render (h : Healthy ⟨files, env⟩ s)
    (hread : files.readText path = .ok s.render) :
    load env files path = ({ settings := s }, files) := by
  unfold load
  rw [hread]
  dsimp only
  rw [h.shaped.parse?_render]
  dsimp only
  rw [h.heal_entries]
  rfl

/-- **What a load does.**  Either there is nothing to repair, and then nothing is
written; or healthy settings are saved. -/
theorem load_cases (env : Environment) (files : FileStore) (path : String) :
    (∃ s, load env files path = ({ settings := s }, files)) ∨
    ∃ s report files₁, report ≠ [] ∧ Healthy ⟨files₁, env⟩ s ∧
      load env files path =
        ({ settings := s, repaired := report, saved := (save files₁ path s).2.isOk },
          (save files₁ path s).1) := by
  have hfinish : ∀ {s : Settings} {files₁ : FileStore} {report : List String}, report ≠ [] →
      finish files₁ path s report =
        ({ settings := s, repaired := report, saved := (save files₁ path s).2.isOk },
          (save files₁ path s).1) := by
    intro s files₁ report hreport
    rw [finish, if_neg (by simpa using hreport)]
  unfold load
  cases hread : files.readText path with
  | error cause => exact Or.inl ⟨standard, rfl⟩
  | ok text =>
      dsimp only
      cases hparse : Json.parse? text with
      | none =>
          have hreport : ["*"] ≠ [] := by simp
          exact Or.inr ⟨standard, ["*"], backUp files path text, hreport, healthy_standard _,
            hfinish hreport⟩
      | some v =>
          dsimp only
          have hhealthy := healthy_heal ⟨files, env⟩ v
          generalize heal ⟨files, env⟩ v = healed at hhealthy ⊢
          obtain ⟨s, report⟩ := healed
          by_cases hreport : report = []
          · subst hreport
            exact Or.inl ⟨s, rfl⟩
          · exact Or.inr ⟨s, report, files, hreport, hhealthy, hfinish hreport⟩

/-- **The next load is clean.**  After a load that repaired nothing, or that
saved what it repaired, another one yields the same settings, repairs nothing
and leaves all files alone.  A load that repairs nothing writes nothing. -/
theorem load_again (env : Environment) (files : FileStore) (path : String) :
    let first := load env files path
    (first.1.repaired = [] ∨ first.1.saved = true →
      load env first.2 path =
        ({ settings := first.1.settings, repaired := [], saved := false }, first.2)) ∧
    (first.1.repaired = [] → first.2 = files) := by
  intro first
  obtain ⟨s, hload⟩ | ⟨s, report, files₁, hreport, hhealthy, hload⟩ := load_cases env files path
  · have hfirst : first = _ := hload
    rw [hfirst]
    exact ⟨fun _ => hload, fun _ => rfl⟩
  · have hfirst : first = _ := hload
    rw [hfirst]
    refine ⟨fun hclean => ?_, fun hnone => absurd hnone hreport⟩
    have hsaved : (save files₁ path s).2.isOk = true := hclean.resolve_left hreport
    cases hsave : save files₁ path s with
    | mk files₂ outcome =>
        rw [hsave] at hsaved
        cases outcome with
        | error cause => cases hsaved
        | ok =>
            obtain ⟨hkeeps, hread⟩ := save_eq_ok hsave
            exact (hhealthy.of_keeps hkeeps).load_render hread

/-- A file of settings with a useless value and an unknown key, and without most
of the settings. -/
def partialFile : FileStore where
  entries := [(["settings.json"], .file "\x7b\"fontSize\":\" \",\"zoom\":2\x7d".toUTF8)]

/-- It is saved when it is loaded, and the next load is clean. -/
theorem load_partialFile_again :
    (load {} partialFile "/settings.json").1.saved = true ∧
      load {} (load {} partialFile "/settings.json").2 "/settings.json" =
        ({ settings := (load {} partialFile "/settings.json").1.settings },
          (load {} partialFile "/settings.json").2) := by
  have hsaved : (load {} partialFile "/settings.json").1.saved = true := by decide +kernel
  exact ⟨hsaved, (load_again {} partialFile "/settings.json").1 (Or.inr hsaved)⟩

end CodeFence.Settings
