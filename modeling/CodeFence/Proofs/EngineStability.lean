import CodeFence.Engine.Scripted
import CodeFence.Proofs.EqualPaths
import CodeFence.Proofs.StableEngine

/-!
# Engines that are stable

Both engines answer the same question in the same way each time, the bundled
one as long as the theme files do not change.  The themes that it has loaded
are the ones that their files say, and a grammar that is loaded stays loaded.

* `Script.stable` — every script is followed by a stable engine;
* `Bundled.stable` — so is the bundled engine, whatever tokens the grammars
  find and whatever lies in the directories of themes.
-/

namespace CodeFence

open Markup

namespace Script

variable (s : Script)

/-- Whether a theme is there once it has been loaded. -/
def themeLoads (id : String) : Bool :=
  !s.brokenThemes.contains id && s.themes.contains id && !s.forgetful

/-- The states in which no theme is loaded that cannot be loaded. -/
def Serves (loaded : List String) : Prop :=
  ∀ id ∈ loaded, s.themeLoads id = true

/-- What is rendered in a theme that is loaded. -/
def rendition (code language theme : String) : Except EngineError Document :=
  if s.broken then .error (.other "broken")
  else if s.unusable.contains language then .error (.languageUnusable language "unusable")
  else .ok (document code language theme)

variable {s}

theorem loadTheme_serves {loaded : List String} (id : String) (h : s.Serves loaded) :
    s.Serves (s.engine.loadTheme id loaded).2 := by
  simp only [engine]
  split
  · exact h
  · split
    · exact h
    · split
      · exact h
      · rename_i hreadable hthere hnew
        intro other hmem
        rcases List.mem_cons.mp hmem with rfl | hold
        · simp_all [themeLoads]
        · exact h other hold

theorem loadTheme_holds {loaded : List String} (id : String) (h : s.Serves loaded) :
    s.themeLoads id = true ↔
      (s.engine.loadTheme id loaded).1.isOk = true ∧ id ∈ (s.engine.loadTheme id loaded).2 := by
  constructor
  · intro hloads
    by_cases hmem : id ∈ loaded
    · simp_all [themeLoads, engine, Except.isOk, Except.toBool]
    · simp_all [themeLoads, engine, Except.isOk, Except.toBool]
  · rintro ⟨-, hmem⟩
    exact loadTheme_serves id h id hmem

theorem rendition_found {code l t : String} {e : EngineError}
    (h : s.rendition code l t = .error e) : e.isThemeNotFound = false := by
  unfold rendition at h
  split at h
  · cases h
    rfl
  · split at h
    · cases h
      rfl
    · cases h

/-- A scripted engine looks for themes nowhere, and it renders in any language
without having loaded it. -/
def stable (s : Script) : StableEngine (List String) where
  toEngine := s.engine
  Place := Unit
  placeOf _ := ()
  Serves _ := s.Serves
  Speaks _ _ := True
  Holds loaded id := id ∈ loaded
  knows l := s.supported.contains l
  languageLoads l := !s.loadFails.contains l
  themeLoads _ := s.themeLoads
  rendition _ := s.rendition
  supports_eq _ _ := rfl
  loadLanguage_isOk l _ := by
    simp only [engine]
    cases s.loadFails.contains l <;> rfl
  loadLanguage_speaks _ _ _ := trivial
  loadTheme_holds id h := loadTheme_holds id h
  themeLoads_of_holds h hmem := h _ hmem
  render_held code _ _ hmem := by
    simp [engine, rendition, hmem]
  render_missing code _ _ hmem := by
    simp [engine, hmem]
  rendition_found := rendition_found
  loadLanguage_serves _ h := h
  loadLanguage_keeps _ _ := trivial
  loadTheme_serves id h := loadTheme_serves id h
  loadTheme_keeps _ _ := trivial
  render_serves _ _ _ h := h
  render_keeps _ _ _ _ := trivial
  applySettings_serves _ h := h
  applySettings_keeps _ _ := trivial

end Script

namespace Bundled

open Syntax (Language Analysis)

variable {analyse : Analysis} {around : Surroundings} {directories : List String} {b : Bundled}

/-- The states that look for themes in some directories, however these are written:
the themes that are loaded are found there, and plain text has no grammar. -/
structure Serves (around : Surroundings) (directories : List String) (b : Bundled) : Prop where
  place : b.directories.map Path.components = directories.map Path.components
  themes : ∀ id t, b.themes.lookup id = some t → Theme.load around.files id directories = .ok t
  plain : Language.plainText ∉ b.grammars.loaded

/-- A language has a grammar that is loaded, or needs none. -/
def Speaks (b : Bundled) (language : String) : Prop :=
  ∃ l, Language.ofId? language = some l ∧ b.grammars.isLoaded l = true

/-- The tokens of a source in a language whose grammar is loaded. -/
def tokens (analyse : Analysis) (code : String) (l : Language) : Syntax.Highlights :=
  if l = .plainText then {} else analyse code l

/-- What is rendered in a loaded language and a loaded theme. -/
def rendition (analyse : Analysis) (around : Surroundings) (directories : List String)
    (code language theme : String) : Except EngineError Document :=
  match Language.ofId? language, Theme.load around.files theme directories with
  | some l, .ok t => .ok (renderDocument code (tokens analyse code l) t)
  | some _, .error e => .error (.other e.message)
  | none, _ => .error (.languageUnusable language "no grammar")

theorem serves_ofSettings (around : Surroundings) (s : Settings) :
    Serves around (around.environment.themeDirectories s.customThemePath)
      (ofSettings around s) := by
  refine ⟨rfl, ?_, by simp [ofSettings]⟩
  intro id t h
  cases h

theorem isLoaded_load {g : Syntax.Grammars} {l l' : Language} (h : g.isLoaded l' = true) :
    (g.load l).isLoaded l' = true := by
  unfold Syntax.Grammars.load
  split
  · exact h
  · unfold Syntax.Grammars.isLoaded at h ⊢
    rw [Bool.or_eq_true] at h ⊢
    rcases h with hplain | hthere
    · exact Or.inl hplain
    · exact Or.inr (by simp only [List.contains_cons, hthere, Bool.or_true])

theorem isLoaded_load_self (g : Syntax.Grammars) (l : Language) :
    (g.load l).isLoaded l = true := by
  unfold Syntax.Grammars.load
  split
  · assumption
  · simp [Syntax.Grammars.isLoaded]

theorem plainText_not_mem_load {g : Syntax.Grammars} (l : Language)
    (h : Language.plainText ∉ g.loaded) : Language.plainText ∉ (g.load l).loaded := by
  unfold Syntax.Grammars.load
  split
  · exact h
  · rename_i hnew
    intro hmem
    rcases List.mem_cons.mp hmem with rfl | hold
    · exact hnew (by simp [Syntax.Grammars.isLoaded])
    · exact h hold

/-- Only a loaded grammar finds tokens, and plain text has none. -/
theorem highlightWith_eq_tokens {g : Syntax.Grammars} {l : Language} (code : String)
    (hplain : Language.plainText ∉ g.loaded) (h : g.isLoaded l = true) :
    g.highlightWith analyse code l = tokens analyse code l := by
  unfold Syntax.Grammars.highlightWith tokens
  by_cases hl : l = .plainText
  · subst hl
    rw [if_pos rfl, if_neg (by simpa using hplain)]
  · have hmem : g.loaded.contains l = true := by simpa [Syntax.Grammars.isLoaded, hl] using h
    rw [if_neg hl, if_pos hmem]

theorem serves_loadLanguage (language : String) (h : Serves around directories b) :
    Serves around directories (loadLanguage language b).2 := by
  unfold loadLanguage
  cases Language.ofId? language with
  | none => exact h
  | some l => exact ⟨h.place, h.themes, plainText_not_mem_load l h.plain⟩

theorem speaks_loadLanguage {language : String} {known : Language}
    (h : Language.ofId? language = some known) : Speaks (loadLanguage language b).2 language := by
  unfold loadLanguage
  rw [h]
  exact ⟨known, h, isLoaded_load_self b.grammars known⟩

theorem Speaks.loadLanguage {l : String} (language : String) (h : Speaks b l) :
    Speaks (loadLanguage language b).2 l := by
  obtain ⟨known, hknown, hloaded⟩ := h
  unfold Bundled.loadLanguage
  cases Language.ofId? language with
  | none => exact ⟨known, hknown, hloaded⟩
  | some _ => exact ⟨known, hknown, isLoaded_load hloaded⟩

/-- What the engine reads is what is found in the directories that it serves. -/
theorem Serves.load_iff (h : Serves around directories b) {id : String} {t : Theme} :
    Theme.load around.files id b.directories = .ok t ↔
      Theme.load around.files id directories = .ok t :=
  Theme.load_eq_ok_of_components h.place

/-- Loading a theme comes to what its file says, whether or not it is loaded. -/
theorem loadTheme_isOk (id : String) (h : Serves around directories b) :
    (loadTheme around id b).1.isOk = (Theme.load around.files id directories).isOk := by
  rcases loadTheme_cases around id b with
    ⟨t, hthere, heq⟩ | ⟨-, ⟨t, hload, heq⟩ | ⟨e, error, hload, heq, -⟩⟩
  · rw [heq, h.themes id t hthere]
    rfl
  · rw [heq, h.load_iff.mp hload]
    rfl
  · rw [heq]
    cases hthere : Theme.load around.files id directories with
    | ok t =>
        rw [h.load_iff.mpr hthere] at hload
        cases hload
    | error e' => rfl

/-- A theme whose loading succeeds is held. -/
theorem isSome_lookup_of_loadTheme {id : String}
    (h : (loadTheme around id b).1.isOk = true) :
    ((loadTheme around id b).2.themes.lookup id).isSome = true := by
  rcases loadTheme_cases around id b with
    ⟨t, hthere, heq⟩ | ⟨-, ⟨t, -, heq⟩ | ⟨e, error, -, heq, -⟩⟩
  · simp [heq, hthere]
  · simp [heq]
  · rw [heq] at h
    cases h

/-- Loading a theme succeeds exactly if the theme can be read in its place, and
then the theme is there. -/
theorem loadTheme_holds (id : String) (h : Serves around directories b) :
    (Theme.load around.files id directories).isOk = true ↔
      (loadTheme around id b).1.isOk = true ∧
        ((loadTheme around id b).2.themes.lookup id).isSome = true := by
  rw [← loadTheme_isOk id h]
  exact ⟨fun hok => ⟨hok, isSome_lookup_of_loadTheme hok⟩, And.left⟩

theorem serves_loadTheme (id : String) (h : Serves around directories b) :
    Serves around directories (loadTheme around id b).2 := by
  rcases loadTheme_cases around id b with
    ⟨t, -, heq⟩ | ⟨-, ⟨t, hload, heq⟩ | ⟨e, error, -, heq, -⟩⟩
  · rwa [heq]
  · have hthere := h.load_iff.mp hload
    rw [heq]
    refine ⟨h.place, ?_, h.plain⟩
    intro other t' hlookup
    by_cases hother : other = id
    · subst hother
      have hsame : t = t' := by simpa using hlookup
      rw [hthere, hsame]
    · have hne : (other == id) = false := beq_false_of_ne hother
      exact h.themes other t' (by simpa [List.lookup_cons, hne] using hlookup)
  · rwa [heq]

theorem Speaks.loadTheme {l : String} (id : String) (h : Speaks b l) :
    Speaks (loadTheme around id b).2 l := by
  rcases loadTheme_cases around id b with
    ⟨t, -, heq⟩ | ⟨-, ⟨t, -, heq⟩ | ⟨e, error, -, heq, -⟩⟩ <;>
    rw [heq] <;> exact h

theorem render_held {language theme : String} (code : String) (h : Serves around directories b)
    (hspeaks : Speaks b language) (hheld : (b.themes.lookup theme).isSome = true) :
    render analyse code language theme b =
      rendition analyse around directories code language theme := by
  obtain ⟨l, hl, hloaded⟩ := hspeaks
  obtain ⟨t, ht⟩ := Option.isSome_iff_exists.mp hheld
  unfold render rendition
  rw [hl, ht, h.themes theme t ht]
  dsimp only
  rw [if_pos hloaded, highlightWith_eq_tokens code h.plain hloaded]

theorem render_missing {language theme : String} (code : String) (hspeaks : Speaks b language)
    (hmissing : ¬ (b.themes.lookup theme).isSome = true) :
    render analyse code language theme b = .error (.themeNotFound theme) := by
  obtain ⟨l, hl, hloaded⟩ := hspeaks
  have hnone : b.themes.lookup theme = none := Option.not_isSome_iff_eq_none.mp hmissing
  unfold render
  rw [hl, hnone]
  dsimp only
  rw [if_pos hloaded]

theorem rendition_found {code l t : String} {e : EngineError}
    (h : rendition analyse around directories code l t = .error e) :
    e.isThemeNotFound = false := by
  unfold rendition at h
  split at h <;> cases h <;> rfl

theorem serves_applySettings (around : Surroundings) (s : Settings)
    (h : Serves around directories b) :
    Serves around (around.environment.themeDirectories s.customThemePath)
      (applySettings around s b) := by
  unfold applySettings
  dsimp only
  split
  · rename_i hsame
    refine ⟨hsame.symm, ?_, h.plain⟩
    -- A theme that was found where the engine has looked is found in equal directories.
    intro id t hlookup
    have hfound := h.load_iff.mpr (h.themes id t hlookup)
    exact (Theme.load_eq_ok_of_components hsame.symm).mp hfound
  · refine ⟨rfl, ?_, h.plain⟩
    intro id t hlookup
    cases hlookup

theorem Speaks.applySettings {l : String} (around : Surroundings) (s : Settings) (h : Speaks b l) :
    Speaks (applySettings around s b) l := by
  unfold Bundled.applySettings
  dsimp only
  split <;> exact h

theorem engineWith_loadTheme : (engineWith analyse around).loadTheme = loadTheme around := by
  rw [engineWith]

theorem engineWith_applySettings :
    (engineWith analyse around).applySettings = applySettings around := by
  rw [engineWith]

/-- The bundled engine looks for themes in directories, of which one is the
user's own. -/
def stable (analyse : Analysis) (around : Surroundings) : StableEngine Bundled where
  toEngine := engineWith analyse around
  Place := List String
  placeOf path := around.environment.themeDirectories path
  Serves := Serves around
  Speaks := Speaks
  Holds b id := (b.themes.lookup id).isSome = true
  knows l := (Language.ofId? l).isSome
  languageLoads l := (Language.ofId? l).isSome
  themeLoads directories id := (Theme.load around.files id directories).isOk
  rendition := rendition analyse around
  supports_eq _ _ := rfl
  loadLanguage_isOk l _ := by
    simp only [engineWith, loadLanguage]
    cases Language.ofId? l <;> rfl
  loadLanguage_speaks l _ hknown := by
    obtain ⟨known, hl⟩ := Option.isSome_iff_exists.mp hknown
    exact speaks_loadLanguage hl
  loadTheme_holds id h := by
    rw [engineWith_loadTheme]
    exact loadTheme_holds id h
  themeLoads_of_holds h hheld := by
    obtain ⟨t, ht⟩ := Option.isSome_iff_exists.mp hheld
    rw [h.themes _ t ht]
    rfl
  render_held code h hspeaks hheld := render_held code h hspeaks hheld
  render_missing code _ hspeaks hmissing := ⟨_, render_missing code hspeaks hmissing⟩
  rendition_found := rendition_found
  loadLanguage_serves l h := serves_loadLanguage l h
  loadLanguage_keeps l h := h.loadLanguage l
  loadTheme_serves id h := by
    rw [engineWith_loadTheme]
    exact serves_loadTheme id h
  loadTheme_keeps id h := by
    rw [engineWith_loadTheme]
    exact h.loadTheme id
  render_serves _ _ _ h := h
  render_keeps _ _ _ h := h
  applySettings_serves s h := by
    rw [engineWith_applySettings]
    exact serves_applySettings around s h
  applySettings_keeps s h := by
    rw [engineWith_applySettings]
    exact h.applySettings around s

end Bundled

end CodeFence
