import CodeFence.Proofs.PipelineSteps

/-!
# Stable engines

An engine is stable if asking it the same thing again gives the same answer:
whether a language or a theme can be loaded is settled once for all, a theme
that is not loaded is reported as not found, and what is rendered in a loaded
language and a loaded theme depends on the source, the language and the theme
alone.  What a theme file says may depend on the place where themes are looked
for, and that place follows from one setting.

* `StableEngine` — an engine with the laws that make it stable;
* `StableEngine.produce` — what the chain of fallbacks makes of a source, as a
  function without any state;
* `Settled` — the pipelines over a stable engine in which whatever counts as
  loaded is loaded; every talk with the engine keeps it (`kept_settled`);
* `renderSomehow_eq_produce` — a settled pipeline renders what `produce` says,
  no matter what it has rendered or loaded before.
-/

namespace CodeFence

open Markup

/-- An engine whose answers do not depend on what it was asked before. -/
structure StableEngine (σ : Type) extends Engine σ where
  /-- Where themes may be looked for. -/
  Place : Type
  /-- The place that goes with a directory of the user's own themes. -/
  placeOf : (customThemePath : String) → Place
  /-- The states that may be reached while themes are looked for in a place. -/
  Serves : Place → σ → Prop
  /-- A language has been loaded. -/
  Speaks : σ → String → Prop
  /-- A theme has been loaded. -/
  Holds : σ → String → Prop
  knows : String → Bool
  languageLoads : String → Bool
  /-- Whether a theme is there once it has been loaded. -/
  themeLoads : Place → String → Bool
  /-- What is rendered in a loaded language and a loaded theme. -/
  rendition : Place → (code language theme : String) → Except EngineError Document
  supports_eq : ∀ {w st} l, Serves w st → supports st l = knows l
  loadLanguage_isOk : ∀ {w st} l, Serves w st →
    (loadLanguage l st).1.isOk = languageLoads l
  loadLanguage_speaks : ∀ {w st} l, Serves w st → languageLoads l = true →
    Speaks (loadLanguage l st).2 l
  loadTheme_holds : ∀ {w st} t, Serves w st →
    (themeLoads w t = true ↔ (loadTheme t st).1.isOk = true ∧ Holds (loadTheme t st).2 t)
  /-- Only what can be loaded is ever there. -/
  themeLoads_of_holds : ∀ {w st t}, Serves w st → Holds st t → themeLoads w t = true
  render_held : ∀ {w st l t} code, Serves w st → Speaks st l → Holds st t →
    (render code l t st).1 = rendition w code l t
  render_missing : ∀ {w st l t} code, Serves w st → Speaks st l → ¬ Holds st t →
    ∃ name, (render code l t st).1 = .error (.themeNotFound name)
  rendition_found : ∀ {w code l t e}, rendition w code l t = .error e →
    e.isThemeNotFound = false
  loadLanguage_serves : ∀ {w st} l, Serves w st → Serves w (loadLanguage l st).2
  loadLanguage_keeps : ∀ {st l'} l, Speaks st l' → Speaks (loadLanguage l st).2 l'
  loadTheme_serves : ∀ {w st} t, Serves w st → Serves w (loadTheme t st).2
  loadTheme_keeps : ∀ {st l'} t, Speaks st l' → Speaks (loadTheme t st).2 l'
  render_serves : ∀ {w st} code l t, Serves w st → Serves w (render code l t st).2
  render_keeps : ∀ {st l'} code l t, Speaks st l' → Speaks (render code l t st).2 l'
  applySettings_serves : ∀ {w st} s, Serves w st →
    Serves (placeOf s.customThemePath) (applySettings s st)
  applySettings_keeps : ∀ {st l'} s, Speaks st l' → Speaks (applySettings s st) l'

namespace StableEngine

variable {σ : Type} (E : StableEngine σ)

/-- The engine language for a language name, if there is one. -/
def resolved (language : String) : Option String :=
  let canonical := canonicalLanguage language
  if E.knows canonical then some canonical
  else (engineAliases.lookup canonical).filter E.knows

/-- What one attempt in a language gives. -/
def attempted (w : E.Place) (code language theme : String) : Option Document :=
  match E.resolved language with
  | none => none
  | some l =>
    if E.languageLoads l && E.themeLoads w theme then (E.rendition w code l theme).toOption
    else none

/-- What the chain of fallbacks makes of a source. -/
def produce (w : E.Place) (fallback code language theme : String) : Document × Outcome :=
  match E.attempted w code language theme with
  | some d => (d, .rendered)
  | none =>
    match E.attempted w code fallback theme with
    | some d => (d, .fallback)
    | none => (Document.plain code, .plain)

/-- What is rendered in the language asked for does not depend on the fallback
language. -/
theorem produce_of_rendered {w : E.Place} {fallback code language theme : String}
    (h : (E.produce w fallback code language theme).2 = .rendered) (other : String) :
    E.produce w other code language theme = E.produce w fallback code language theme := by
  cases hfirst : E.attempted w code language theme with
  | some d => simp only [produce, hfirst]
  | none =>
      simp only [produce, hfirst] at h
      cases hsecond : E.attempted w code fallback theme with
      | some d => rw [hsecond] at h; cases h
      | none => rw [hsecond] at h; cases h

end StableEngine

namespace Pipeline

variable {σ : Type} {E : StableEngine σ} {w : E.Place} {p : Pipeline σ}

/-- A pipeline over a stable engine, in which the languages that count as
loaded are loaded.  Of the themes nothing is asked: one that is missing is
noticed. -/
structure Settled (E : StableEngine σ) (w : E.Place) (p : Pipeline σ) : Prop where
  engine : p.engine = E.toEngine
  serves : E.Serves w p.state
  spoken : ∀ l ∈ p.languages, E.languageLoads l = true ∧ E.Speaks p.state l

theorem mem_addName {name other : String} {names : List String} :
    other ∈ addName name names ↔ other = name ∨ other ∈ names := by
  unfold addName
  split
  · rename_i hthere
    have hmem : name ∈ names := by simpa using hthere
    constructor
    · exact Or.inr
    · rintro (rfl | h)
      · exact hmem
      · exact h
  · exact List.mem_cons

/-- Loading a language that can be loaded settles it. -/
theorem Settled.ensureLanguage (hp : Settled E w p) (l : String) :
    Settled E w ((ensureLanguage l).run p).2 ∧
      (((ensureLanguage l).run p).1.isOk = E.languageLoads l) ∧
      (E.languageLoads l = true → E.Speaks ((ensureLanguage l).run p).2.state l) := by
  rw [ensureLanguage_run]
  by_cases hthere : l ∈ p.languages
  · rw [if_pos (by simpa using hthere)]
    obtain ⟨hloads, hspeaks⟩ := hp.spoken l hthere
    exact ⟨hp, hloads.symm, fun _ => hspeaks⟩
  · rw [if_neg (by simpa using hthere), hp.engine]
    have hok := E.loadLanguage_isOk l hp.serves
    have hspeaks := E.loadLanguage_speaks l hp.serves
    have hserves := E.loadLanguage_serves l hp.serves
    have hkeeps : ∀ l' ∈ p.languages, E.languageLoads l' = true ∧
        E.Speaks (E.loadLanguage l p.state).2 l' := fun l' hl' =>
      ⟨(hp.spoken l' hl').1, E.loadLanguage_keeps l (hp.spoken l' hl').2⟩
    generalize E.loadLanguage l p.state = x at hok hspeaks hserves hkeeps ⊢
    obtain ⟨r, state⟩ := x
    cases r with
    | error e => exact ⟨⟨rfl, hserves, hkeeps⟩, hok, hspeaks⟩
    | ok u =>
        have hloads : E.languageLoads l = true := hok.symm
        refine ⟨⟨rfl, hserves, ?_⟩, hok, hspeaks⟩
        intro l' hl'
        rcases mem_addName.mp hl' with rfl | hold
        · exact ⟨hloads, hspeaks hloads⟩
        · exact hkeeps l' hold

/-- **A settled pipeline stays settled.** -/
theorem kept_settled (E : StableEngine σ) (w : E.Place) : Kept (Settled E w) where
  language l _ hp := (hp.ensureLanguage l).1
  theme t p hp := by
    rw [ensureTheme_run, hp.engine]
    split
    · exact hp
    · have hserves := E.loadTheme_serves t hp.serves
      have hspoken : ∀ l ∈ p.languages, E.languageLoads l = true ∧
          E.Speaks (E.loadTheme t p.state).2 l := fun l hl =>
        ⟨(hp.spoken l hl).1, E.loadTheme_keeps t (hp.spoken l hl).2⟩
      generalize E.loadTheme t p.state = x at hserves hspoken ⊢
      obtain ⟨r, state⟩ := x
      cases r <;> exact ⟨rfl, hserves, hspoken⟩
  render code l t p hp := by
    rw [hp.engine]
    exact ⟨rfl, E.render_serves code l t hp.serves,
      fun l' hl' => ⟨(hp.spoken l' hl').1, E.render_keeps code l t (hp.spoken l' hl').2⟩⟩
  forget _ _ hp := ⟨hp.engine, hp.serves, hp.spoken⟩

theorem Settled.resolveLanguage (hp : Settled E w p) (language : String) :
    p.resolveLanguage language = E.resolved language := by
  have hsupports : p.engine.supports p.state = E.knows := by
    rw [hp.engine]
    exact funext fun l => E.supports_eq l hp.serves
  unfold Pipeline.resolveLanguage StableEngine.resolved
  rw [hsupports]

/-- A missing theme is loaded and the source rendered again, if that helps. -/
theorem reload_toOption (hengine : p.engine = E.toEngine) {state : σ}
    (hserves : E.Serves w state) {language : String} (hspeaks : E.Speaks state language)
    (code theme : String) :
    (match (ensureTheme theme).run (p.forgetTheme theme state) with
      | (.ok _, q) => (call fun e => e.render code language theme).run q
      | (.error e, q) => (.error e, q)).1.toOption =
      if E.themeLoads w theme then (E.rendition w code language theme).toOption else none := by
  rw [ensureTheme_run_forgetTheme, hengine]
  have hholds := E.loadTheme_holds theme hserves
  have hthere := E.loadTheme_serves theme hserves
  have hstill := E.loadTheme_keeps theme hspeaks
  generalize E.loadTheme theme state = x at hholds hthere hstill ⊢
  obtain ⟨loaded, after⟩ := x
  cases loaded with
  | error e =>
      have hfails : ¬ E.themeLoads w theme = true := fun hloads => by
        cases (hholds.mp hloads).1
      rw [if_neg hfails]
      rfl
  | ok u =>
      dsimp only
      rw [call_run]
      change (p.engine.render code language theme after).1.toOption = _
      rw [hengine]
      by_cases hheld : E.Holds after theme
      · rw [if_pos (hholds.mpr ⟨rfl, hheld⟩), E.render_held code hthere hstill hheld]
      · have hfails : ¬ E.themeLoads w theme = true := fun hloads => hheld (hholds.mp hloads).2
        obtain ⟨name, hname⟩ := E.render_missing code hthere hstill hheld
        rw [if_neg hfails, hname]
        rfl

/-- **One rendering.**  In a loaded language a source comes out as the
rendition, whether or not the theme had been loaded. -/
theorem Settled.renderLoaded_toOption (hp : Settled E w p) (code : String) {language : String}
    (hspeaks : E.Speaks p.state language) (theme : String) :
    ((renderLoaded code language theme).run p).1.toOption =
      if E.themeLoads w theme then (E.rendition w code language theme).toOption else none := by
  have hserves := E.render_serves code language theme hp.serves
  have hstill := E.render_keeps code language theme hspeaks
  have hreload := reload_toOption hp.engine hserves hstill code theme
  rw [renderLoaded_run]
  rw [← hp.engine] at hreload
  by_cases hheld : E.Holds p.state theme
  · have hrendered := E.render_held code hp.serves hspeaks hheld
    rw [← hp.engine] at hrendered
    rw [if_pos (E.themeLoads_of_holds hp.serves hheld)]
    generalize p.engine.render code language theme p.state = x at hrendered ⊢
    obtain ⟨r, state⟩ := x
    dsimp only at hrendered
    subst hrendered
    cases hr : E.rendition w code language theme with
    | ok d => rfl
    | error e =>
        dsimp only
        rw [if_neg (by rw [E.rendition_found hr]; exact Bool.false_ne_true)]
  · obtain ⟨name, hmissing⟩ := E.render_missing code hp.serves hspeaks hheld
    rw [← hp.engine] at hmissing
    generalize p.engine.render code language theme p.state = x at hmissing hreload ⊢
    obtain ⟨r, state⟩ := x
    dsimp only at hmissing
    subst hmissing
    exact hreload

/-- **One attempt.**  It gives what a stable engine gives, whatever was asked
before. -/
theorem Settled.attempt_toOption (hp : Settled E w p) (code language theme : String) :
    ((attempt code language theme).run p).1.toOption = E.attempted w code language theme := by
  rw [attempt_run, hp.resolveLanguage, StableEngine.attempted]
  cases E.resolved language with
  | none => rfl
  | some l =>
      obtain ⟨hafter, hok, hspeaks⟩ := hp.ensureLanguage l
      dsimp only
      generalize (Pipeline.ensureLanguage l).run p = x at hafter hok hspeaks ⊢
      obtain ⟨r, q⟩ := x
      cases r with
      | error e =>
          have hfails : E.languageLoads l = false := hok.symm
          rw [hfails]
          rfl
      | ok u =>
          have hloads : E.languageLoads l = true := hok.symm
          dsimp only
          rw [hafter.renderLoaded_toOption code (hspeaks hloads) theme, hloads, Bool.true_and]

/-- **The chain of fallbacks.**  A settled pipeline renders what `produce` says
of the place, the fallback language, the source, the language and the theme. -/
theorem Settled.renderSomehow_eq_produce (hp : Settled E w p) (code language theme : String) :
    (renderSomehow code language theme p).1 =
      E.produce w p.settings.fallbackLanguage code language theme := by
  have hfirst := hp.attempt_toOption code language theme
  have hafter := (kept_settled E w).attempt code language theme hp
  have hsettings := ((kept_onlyLoads p).attempt code language theme (OnlyLoads.refl p)).settings
  rw [renderSomehow_run, StableEngine.produce, ← hfirst, ← hsettings]
  generalize (attempt code language theme).run p = x at hafter ⊢
  obtain ⟨r, q⟩ := x
  cases r with
  | ok d => rfl
  | error e =>
      have hsecond := hafter.attempt_toOption code q.settings.fallbackLanguage theme
      dsimp only [Except.toOption] at hsecond ⊢
      rw [← hsecond]
      generalize (attempt code q.settings.fallbackLanguage theme).run q = x
      obtain ⟨r, s⟩ := x
      cases r <;> rfl

end Pipeline

end CodeFence
