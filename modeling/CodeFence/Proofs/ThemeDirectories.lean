import CodeFence.Proofs.InlineTransparency
import CodeFence.Proofs.SettingsUpdate

/-!
# Themes and their directories

What is known of themes is kept in three places: the engine has the themes that
it has read, the pipeline has a list of those that count as loaded, and cached
blocks were colored in some.  New settings may look for themes elsewhere.  The
engine then goes by what the paths of the directories are made of, the pipeline by
the text that names one of them, and the three never drift apart.

* `Holding` — what counts as loaded, the engine holds;
* `Holding.updateSettings` — this outlives new settings, if the engine looks
  where the old ones say;
* `colored_of_made` — what is cached was colored in the theme that its
  directories yield;
* `themes_live` — through any history.
-/

namespace CodeFence

open Markup

namespace Pipeline

/-- A pipeline over the bundled engine, in which every theme that counts as
loaded is held by the engine. -/
structure Holding (analyse : Syntax.Analysis) (around : Surroundings) (p : Pipeline Bundled) :
    Prop where
  engine : p.engine = Bundled.engineWith analyse around
  held : ∀ id ∈ p.themes, (p.state.themes.lookup id).isSome = true

variable {analyse : Syntax.Analysis} {around : Surroundings} {p : Pipeline Bundled}

/-- No theme is forgotten when another one is loaded. -/
theorem isSome_lookup_loadTheme {id other : String} {b : Bundled}
    (h : (b.themes.lookup other).isSome = true) :
    ((Bundled.loadTheme around id b).2.themes.lookup other).isSome = true := by
  rcases Bundled.loadTheme_cases around id b with
    ⟨t, -, heq⟩ | ⟨-, ⟨t, -, heq⟩ | ⟨e, error, -, heq, -⟩⟩
  · rwa [heq]
  · rw [heq]
    by_cases hother : other = id
    · simp [hother]
    · have hne : (other == id) = false := beq_false_of_ne hother
      simpa [List.lookup_cons, hne] using h
  · rwa [heq]

theorem themes_loadLanguage (language : String) (b : Bundled) :
    (Bundled.loadLanguage language b).2.themes = b.themes := by
  unfold Bundled.loadLanguage
  cases Syntax.Language.ofId? language <;> rfl

/-- Every talk with the engine keeps what counts as loaded in its hands. -/
theorem framed_holding (analyse : Syntax.Analysis) (around : Surroundings) :
    Framed (Holding analyse around) where
  language l p hp := by
    rw [ensureLanguage_run, hp.engine]
    split
    · exact hp
    · have hthemes : ((Bundled.engineWith analyse around).loadLanguage l p.state).2.themes =
          p.state.themes := themes_loadLanguage l p.state
      generalize (Bundled.engineWith analyse around).loadLanguage l p.state = x at hthemes ⊢
      obtain ⟨r, state⟩ := x
      have hheld : ∀ id ∈ p.themes, (state.themes.lookup id).isSome = true := by
        rw [hthemes]
        exact hp.held
      cases r <;> exact ⟨rfl, hheld⟩
  theme t p hp := by
    rw [ensureTheme_run, hp.engine, Bundled.engineWith_loadTheme]
    split
    · exact hp
    · have hheld : ∀ id ∈ p.themes,
          ((Bundled.loadTheme around t p.state).2.themes.lookup id).isSome = true :=
        fun id hid => isSome_lookup_loadTheme (hp.held id hid)
      have hnew := @Bundled.isSome_lookup_of_loadTheme around p.state t
      generalize Bundled.loadTheme around t p.state = x at hheld hnew ⊢
      obtain ⟨r, state⟩ := x
      cases r with
      | error e => exact ⟨rfl, hheld⟩
      | ok u =>
          refine ⟨rfl, fun id hid => ?_⟩
          -- The new name is in the state because its load went well; no load takes an old
          -- one away.
          rcases mem_addName.mp hid with rfl | hold
          · exact hnew rfl
          · exact hheld id hold
  render code l t p hp := by
    rw [hp.engine]
    exact ⟨rfl, hp.held⟩
  forget t p hp := ⟨hp.engine, fun id hid => hp.held id (List.mem_filter.mp hid).1⟩
  setCache _ _ hp := ⟨hp.engine, hp.held⟩
  setMode _ _ hp := ⟨hp.engine, hp.held⟩

/-- **New settings.**  If another directory is named, nothing counts as loaded
any more; if not, the engine looks where it has looked and forgets nothing. -/
theorem Holding.updateSettings (hp : Holding analyse around p)
    (hplace : p.state.directories.map Path.components =
      (p.settings.themeDirectories around.environment).map Path.components)
    (s : Settings) : Holding analyse around (p.updateSettings s) := by
  refine ⟨hp.engine, fun id hid => ?_⟩
  by_cases hpath : s.customThemePath = p.settings.customThemePath
  · have hsame : (s.themeDirectories around.environment).map Path.components =
        p.state.directories.map Path.components := by
      rw [hplace, Settings.themeDirectories, hpath]
      rfl
    have hstate : (p.updateSettings s).state = p.state := by
      change p.engine.applySettings s p.state = p.state
      rw [hp.engine, Bundled.engineWith_applySettings, Bundled.applySettings]
      exact if_pos hsame
    have hthemes : (p.updateSettings s).themes = p.themes := by
      unfold Pipeline.updateSettings
      simp [hpath]
    rw [hthemes] at hid
    rw [hstate]
    exact hp.held id hid
  · have hthemes : (p.updateSettings s).themes = [] := by
      unfold Pipeline.updateSettings
      simp [hpath]
    rw [hthemes] at hid
    cases hid

/-- What is cached is plain or colored, and the colors are those of the theme
that is found under the key's id in the directories of the moment. -/
theorem colored_of_made {directories : List String} {fallback : String} {k : CacheKey}
    {e : CacheEntry} (h : Made (Bundled.stable analyse around) directories fallback k e) :
    e.document = Document.plain e.source ∨
      ∃ highlights t, Theme.load around.files k.theme directories = .ok t ∧
        e.document = Bundled.renderDocument e.source highlights t := by
  rw [h.document]
  rcases Bundled.produce_cases analyse around directories fallback e.source k.language k.theme with
    hplain | ⟨-, hcolored⟩
  · left
    rw [hplain]
  · exact Or.inr hcolored

end Pipeline

namespace Session

open Pipeline

/-- Through any history the engine holds what counts as loaded. -/
theorem holding_live {analyse : Syntax.Analysis} {around : Surroundings} {x : Session Bundled}
    (events : List Event)
    (hx : Holding analyse around x.pipeline)
    (hsettled : Settled (Bundled.stable analyse around)
      (x.pipeline.settings.themeDirectories around.environment) x.pipeline) :
    Holding analyse around (x.live events).pipeline := by
  induction events generalizing x with
  | nil => exact hx
  | cons event rest ih =>
      cases event with
      | operation o =>
          have hsettings := (lasting_settings x.pipeline.settings).step rfl o
          have hstep := (framed_settled _ _).lasting.step hsettled o
          rw [← hsettings] at hstep
          exact ih ((framed_holding analyse around).lasting.step hx o) hstep
      | update s =>
          exact ih (hx.updateSettings hsettled.serves.place s) (hsettled.updateSettings s)

/-- **No theme of a directory that is no longer searched.**  Whatever the
grammars find and the files hold, wherever the configuration directory is or if
there is none, and through any history of the bundled engine with any settings: the
engine looks for themes in the directories that the settings of the moment name,
though it may keep another way of writing the same path; each theme that it holds is
the one that is found there; it holds every theme that counts as loaded; and each
cached block is plain, or it was colored in the theme that is found there under the
id of its key. -/
theorem themes_live (analyse : Syntax.Analysis) (around : Surroundings) (s : Settings)
    (events : List Event) :
    let x := (start (Bundled.engineWith analyse around) (Bundled.ofSettings around s) s).live events
    let directories := x.pipeline.settings.themeDirectories around.environment
    x.pipeline.state.directories.map Path.components = directories.map Path.components ∧
    (∀ id t, x.pipeline.state.themes.lookup id = some t →
      Theme.load around.files id directories = .ok t) ∧
    (∀ id ∈ x.pipeline.themes, (x.pipeline.state.themes.lookup id).isSome = true) ∧
    ∀ k e, x.pipeline.cache.find? k = some e →
      e.document = Document.plain e.source ∨
        ∃ highlights t, Theme.load around.files k.theme directories = .ok t ∧
          e.document = Bundled.renderDocument e.source highlights t := by
  intro x directories
  let E := Bundled.stable analyse around
  have hserves := Bundled.serves_ofSettings around s
  have hstart : Stocked E (E.placeOf s.customThemePath) (fun _ => True)
      (start E.toEngine (Bundled.ofSettings around s) s).pipeline :=
    stocked_fresh hserves s none trivial
  have hx : Stocked E directories (fun _ => True) x.pipeline :=
    stocked_live events hstart fun _ _ => trivial
  have hholding : Holding analyse around x.pipeline := by
    refine holding_live events ⟨rfl, ?_⟩ hstart.toSettled
    intro id hid
    cases hid
  refine ⟨hx.serves.place, hx.serves.themes, hholding.held, ?_⟩
  intro k e hentry
  obtain ⟨fallback, -, hmade⟩ := hx.entries k e hentry
  exact colored_of_made hmade

end Session

end CodeFence
