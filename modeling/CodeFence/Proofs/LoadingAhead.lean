import CodeFence.Proofs.EngineCalls
import CodeFence.Proofs.EngineStability

/-!
# Loading ahead

A pipeline that is made ready loads the themes and the languages that its
settings name, one after the other.  Names may repeat, several names may stand for
one language, some things are loaded already, and some cannot be loaded at all.
If the engine always answers a load in the same way, none of this matters: in the
end all that can be loaded is loaded, by one load each.

* `FixedLoads` — an engine that always answers a load in the same way; both engines
  are (`Script.fixedLoads`, `Bundled.fixedLoads`);
* `Served`, `kept_served` — what every talk with such an engine keeps;
* `mem_forM` — what a walk over names loads, by what each of them loads;
* `mem_themes_preload`, `mem_languages_preload` — what is loaded ahead;
* `LoadsOnce` — the talks in which nothing is loaded twice; loading ahead is one
  (`loadsOnce_preload`);
* `Session.preload_exact` — all of it, in any state that a session may reach.
-/

namespace CodeFence

variable {σ : Type} {e : Engine σ}

/-- What the loads of an engine come to, which is always the same.  Which themes can
be loaded may depend on the path under which the user keeps themes. -/
structure FixedLoads {σ : Type} (e : Engine σ) where
  /-- The states that may be reached while themes are kept under a path. -/
  Serves : (customThemePath : String) → σ → Prop
  knows : String → Bool
  languageLoads : String → Bool
  themeLoads : (customThemePath : String) → String → Bool
  supports_eq : ∀ {path st} l, Serves path st → e.supports st l = knows l
  loadLanguage_isOk : ∀ {path st} l, Serves path st →
    (e.loadLanguage l st).1.isOk = languageLoads l
  loadTheme_isOk : ∀ {path st} t, Serves path st →
    (e.loadTheme t st).1.isOk = themeLoads path t
  loadLanguage_serves : ∀ {path st} l, Serves path st → Serves path (e.loadLanguage l st).2
  loadTheme_serves : ∀ {path st} t, Serves path st → Serves path (e.loadTheme t st).2
  render_serves : ∀ {path st} code l t, Serves path st → Serves path (e.render code l t st).2
  applySettings_serves : ∀ {path st} s, Serves path st →
    Serves s.customThemePath (e.applySettings s st)

namespace FixedLoads

/-- Recording does not change what loads come to. -/
def recorded (F : FixedLoads e) : FixedLoads e.recorded where
  Serves path s := F.Serves path s.1
  knows := F.knows
  languageLoads := F.languageLoads
  themeLoads := F.themeLoads
  supports_eq l h := F.supports_eq l h
  loadLanguage_isOk l h := F.loadLanguage_isOk l h
  loadTheme_isOk t h := F.loadTheme_isOk t h
  loadLanguage_serves l h := F.loadLanguage_serves l h
  loadTheme_serves t h := F.loadTheme_serves t h
  render_serves code l t h := F.render_serves code l t h
  applySettings_serves s h := F.applySettings_serves s h

end FixedLoads

/-- A scripted engine follows its script, whatever it has been asked before.  Even an
engine that forgets a theme at once has loaded it. -/
def Script.fixedLoads (s : Script) : FixedLoads s.engine where
  Serves _ _ := True
  knows l := s.supported.contains l
  languageLoads l := !s.loadFails.contains l
  themeLoads _ id := !s.brokenThemes.contains id && s.themes.contains id
  supports_eq _ _ := rfl
  loadLanguage_isOk l _ := by
    simp only [engine]
    cases s.loadFails.contains l <;> rfl
  loadTheme_isOk id _ := by
    simp only [engine]
    cases s.brokenThemes.contains id
    · cases s.themes.contains id
      · rfl
      · simp only [Bool.not_true, Bool.false_eq_true, if_false]
        split <;> rfl
    · rfl
  loadLanguage_serves _ _ := trivial
  loadTheme_serves _ _ := trivial
  render_serves _ _ _ _ := trivial
  applySettings_serves _ _ := trivial

/-- The bundled engine loads what its files say, as long as these do not change. -/
def Bundled.fixedLoads (analyse : Syntax.Analysis) (around : Surroundings) :
    FixedLoads (engineWith analyse around) where
  Serves path := (stable analyse around).Serves ((stable analyse around).placeOf path)
  knows := (stable analyse around).knows
  languageLoads := (stable analyse around).languageLoads
  themeLoads path := (stable analyse around).themeLoads ((stable analyse around).placeOf path)
  supports_eq := (stable analyse around).supports_eq
  loadLanguage_isOk := (stable analyse around).loadLanguage_isOk
  loadTheme_isOk id h := by
    rw [engineWith_loadTheme]
    exact loadTheme_isOk id h
  loadLanguage_serves := (stable analyse around).loadLanguage_serves
  loadTheme_serves := (stable analyse around).loadTheme_serves
  render_serves := (stable analyse around).render_serves
  applySettings_serves := (stable analyse around).applySettings_serves

namespace Pipeline

variable {F : FixedLoads e} {s : Settings} {p q r : Pipeline σ} {t u l : String}

/-- A pipeline over an engine with fixed loads, with given settings. -/
structure Served (F : FixedLoads e) (s : Settings) (p : Pipeline σ) : Prop where
  engine : p.engine = e
  settings : p.settings = s
  serves : F.Serves s.customThemePath p.state

/-- **A pipeline stays served**, whatever it asks its engine. -/
theorem kept_served (F : FixedLoads e) (s : Settings) : Kept (Served F s) where
  language l p hp := by
    have hserves := F.loadLanguage_serves l hp.serves
    rw [ensureLanguage_run, hp.engine]
    generalize e.loadLanguage l p.state = x at hserves ⊢
    obtain ⟨result, state⟩ := x
    split
    · exact hp
    · cases result <;> exact ⟨rfl, hp.settings, hserves⟩
  theme t p hp := by
    have hserves := F.loadTheme_serves t hp.serves
    rw [ensureTheme_run, hp.engine]
    generalize e.loadTheme t p.state = x at hserves ⊢
    obtain ⟨result, state⟩ := x
    split
    · exact hp
    · cases result <;> exact ⟨rfl, hp.settings, hserves⟩
  render code l t p hp := by
    rw [hp.engine]
    exact ⟨rfl, hp.settings, F.render_serves code l t hp.serves⟩
  forget _ _ hp := ⟨hp.engine, hp.settings, hp.serves⟩

theorem Served.current (hp : Served F s p) : Served F p.settings p :=
  ⟨hp.engine, rfl, by rw [hp.settings]; exact hp.serves⟩

/-- It stays so through any history, under the settings of the moment. -/
theorem served_live (F : FixedLoads e) {state : σ} {s : Settings}
    (hstart : F.Serves s.customThemePath state) (events : List Event) :
    let x := (Session.start e state s).live events
    Served F x.pipeline.settings x.pipeline := by
  have hframed : Framed fun p : Pipeline σ => Served F p.settings p :=
    { language := fun l p hp => ((kept_served F p.settings).language l p hp).current
      theme := fun t p hp => ((kept_served F p.settings).theme t p hp).current
      render := fun code l t p hp => ((kept_served F p.settings).render code l t p hp).current
      forget := fun t p hp => ((kept_served F p.settings).forget t p hp).current
      setCache := fun _ _ hp => ⟨hp.engine, rfl, hp.serves⟩
      setMode := fun _ _ hp => ⟨hp.engine, rfl, hp.serves⟩ }
  have hupdate : ∀ s (x : Session σ), Served F x.pipeline.settings x.pipeline →
      Served F (x.update s).pipeline.settings (x.update s).pipeline := by
    intro s x hx
    refine ⟨hx.engine, rfl, ?_⟩
    change F.Serves s.customThemePath (x.pipeline.engine.applySettings s x.pipeline.state)
    rw [hx.engine]
    exact F.applySettings_serves s hx.serves
  exact hframed.lasting.live hupdate ⟨rfl, rfl, hstart⟩ events

/-! ## What is loaded -/

/-- **A walk over names** adds what each of them adds, if what is already there does
not keep anything out. -/
theorem mem_forM (view : Pipeline σ → List String) {P : Pipeline σ → Prop}
    {f : String → StateM (Pipeline σ) PUnit} {adds : String → String → Prop}
    (hkept : ∀ a p, P p → P (f a p).2)
    (hstep : ∀ a p, P p → ∀ u, u ∈ view (f a p).2 ↔ u ∈ view p ∨ adds a u)
    (names : List String) (hp : P p) (u : String) :
    u ∈ view (names.forM f p).2 ↔ u ∈ view p ∨ ∃ a ∈ names, adds a u := by
  induction names generalizing p with
  | nil =>
      change u ∈ view p ↔ _
      simp
  | cons a rest ih =>
      change u ∈ view (rest.forM f (f a p).2).2 ↔ _
      rw [ih (hkept a p hp), hstep a p hp, or_assoc]
      simp only [List.mem_cons, exists_eq_or_imp]

/-- What is there stays, and a name that is not there is added if its load succeeds. -/
theorem mem_ite_addName {names : List String} {name u : String} {loads : Bool} :
    u ∈ (if names.contains name then names else if loads then addName name names else names) ↔
      u ∈ names ∨ loads = true ∧ u = name := by
  split
  · rename_i hthere
    have hmem : name ∈ names := by simpa using hthere
    constructor
    · exact Or.inl
    · rintro (h | ⟨-, rfl⟩)
      · exact h
      · exact hmem
  · cases loads with
    | false => simp
    | true => simp [mem_addName, or_comm]

theorem themes_ensureTheme (p : Pipeline σ) (t : String) :
    ((ensureTheme t).run p).2.themes =
      if p.themes.contains t then p.themes
      else if (p.engine.loadTheme t p.state).1.isOk then addName t p.themes else p.themes := by
  rw [ensureTheme_run]
  split
  · rfl
  · rcases p.engine.loadTheme t p.state with ⟨result, state⟩
    cases result <;> rfl

theorem languages_ensureLanguage (p : Pipeline σ) (l : String) :
    ((ensureLanguage l).run p).2.languages =
      if p.languages.contains l then p.languages
      else if (p.engine.loadLanguage l p.state).1.isOk then addName l p.languages
      else p.languages := by
  rw [ensureLanguage_run]
  split
  · rfl
  · rcases p.engine.loadLanguage l p.state with ⟨result, state⟩
    cases result <;> rfl

theorem Served.mem_themes_ensureTheme (hp : Served F s p) (t u : String) :
    u ∈ ((ensureTheme t).run p).2.themes ↔
      u ∈ p.themes ∨ F.themeLoads s.customThemePath t = true ∧ u = t := by
  rw [themes_ensureTheme, mem_ite_addName, hp.engine, F.loadTheme_isOk t hp.serves]

theorem Served.mem_languages_ensureLanguage (hp : Served F s p) (l u : String) :
    u ∈ ((ensureLanguage l).run p).2.languages ↔
      u ∈ p.languages ∨ F.languageLoads l = true ∧ u = l := by
  rw [languages_ensureLanguage, mem_ite_addName, hp.engine, F.loadLanguage_isOk l hp.serves]

theorem mem_preloadThemes (s : Settings) (t : String) :
    t ∈ preloadThemes s ↔
      t ∈ s.themes ∨ t = s.defaultTheme ∨ t = s.darkTheme ∨ t = s.lightTheme := by
  have hadd : ∀ (themes : List String) (theme : String),
      t ∈ (if themes.contains theme then themes else themes ++ [theme]) ↔
        t ∈ themes ∨ t = theme := by
    intro themes theme
    split
    · rename_i hthere
      have hmem : theme ∈ themes := by simpa using hthere
      constructor
      · exact Or.inl
      · rintro (h | rfl)
        · exact h
        · exact hmem
    · rw [List.mem_append, List.mem_singleton]
  simp only [preloadThemes, List.foldl_cons, List.foldl_nil, hadd, or_assoc]

/-- The pipeline in which the themes have been loaded ahead. -/
def afterThemes (p : Pipeline σ) : Pipeline σ :=
  ((preloadThemes p.settings).forM preloadTheme p).2

theorem preload_run (p : Pipeline σ) :
    (preload p).2 =
      if p.settings.lazyLoading then p.afterThemes
      else (p.settings.languages.forM preloadLanguage p.afterThemes).2 := by
  change ((if p.settings.lazyLoading then pure () else
    p.settings.languages.forM preloadLanguage : StateM _ _) p.afterThemes).2 = _
  split <;> rfl

/-- Loading themes leaves the languages alone. -/
theorem languages_afterThemes (p : Pipeline σ) : p.afterThemes.languages = p.languages := by
  refine Kept.forM (P := fun q => q.languages = p.languages) (fun t q hq => ?_) _ rfl
  change ((ensureTheme t).run q).2.languages = p.languages
  rw [ensureTheme_run]
  split
  · exact hq
  · rcases q.engine.loadTheme t q.state with ⟨result, state⟩
    cases result <;> exact hq

/-- Loading languages leaves the themes alone. -/
theorem themes_preload (p : Pipeline σ) : (preload p).2.themes = p.afterThemes.themes := by
  rw [preload_run]
  split
  · rfl
  · refine Kept.forM (P := fun q => q.themes = p.afterThemes.themes) (fun l q hq => ?_) _ rfl
    rw [preloadLanguage_run]
    cases q.resolveLanguage l with
    | none => exact hq
    | some resolved =>
        rw [Option.elim_some, ensureLanguage_run]
        split
        · exact hq
        · rcases q.engine.loadLanguage resolved q.state with ⟨result, state⟩
          cases result <;> exact hq

theorem Served.afterThemes (hp : Served F s p) : Served F s p.afterThemes :=
  Kept.forM (fun t q hq => (kept_served F s).theme t q hq) _ hp

/-- Which engine language stands for a name depends on the engine alone. -/
theorem Served.resolveLanguage_congr (hp : Served F s p) (hq : Served F s q) (language : String) :
    p.resolveLanguage language = q.resolveLanguage language := by
  have hsupports : p.engine.supports p.state = q.engine.supports q.state := by
    rw [hp.engine, hq.engine]
    exact funext fun l => (F.supports_eq l hp.serves).trans (F.supports_eq l hq.serves).symm
  unfold resolveLanguage
  rw [hsupports]

/-- **The themes that are loaded ahead** are all that can be loaded. -/
theorem Served.mem_themes_preload (hp : Served F s p) (t : String) :
    t ∈ (preload p).2.themes ↔
      t ∈ p.themes ∨ F.themeLoads s.customThemePath t = true ∧
        (t ∈ s.themes ∨ t = s.defaultTheme ∨ t = s.darkTheme ∨ t = s.lightTheme) := by
  have hwalk := mem_forM Pipeline.themes (f := preloadTheme)
    (fun t q hq => (kept_served F s).theme t q hq)
    (fun t q hq u => hq.mem_themes_ensureTheme t u) (preloadThemes s) hp t
  rw [themes_preload, Pipeline.afterThemes, hp.settings, hwalk, ← mem_preloadThemes]
  refine or_congr Iff.rfl ?_
  constructor
  · rintro ⟨a, ha, hloads, rfl⟩
    exact ⟨hloads, ha⟩
  · rintro ⟨hloads, ha⟩
    exact ⟨t, ha, hloads, rfl⟩

/-- **The languages that are loaded ahead** are all that can be loaded. -/
theorem Served.mem_languages_preload (hp : Served F s p) (l : String) :
    l ∈ (preload p).2.languages ↔
      l ∈ p.languages ∨ s.lazyLoading = false ∧ F.languageLoads l = true ∧
        ∃ name ∈ s.languages, p.resolveLanguage name = some l := by
  have hstep : ∀ name q, Served F s q → ∀ u,
      u ∈ (preloadLanguage name q).2.languages ↔
        u ∈ q.languages ∨ F.languageLoads u = true ∧ p.resolveLanguage name = some u := by
    intro name q hq u
    rw [preloadLanguage_run, hq.resolveLanguage_congr hp]
    cases p.resolveLanguage name with
    | none => simp
    | some resolved =>
        rw [Option.elim_some, hq.mem_languages_ensureLanguage, Option.some.injEq]
        refine or_congr Iff.rfl ⟨?_, ?_⟩
        · rintro ⟨hloads, rfl⟩
          exact ⟨hloads, rfl⟩
        · rintro ⟨hloads, rfl⟩
          exact ⟨hloads, rfl⟩
  have hwalk := mem_forM Pipeline.languages
    (fun l q hq => (kept_served F s).preloadLanguage l hq) hstep s.languages hp.afterThemes l
  rw [preload_run, hp.settings]
  cases s.lazyLoading with
  | true => simp [languages_afterThemes]
  | false =>
      rw [if_neg Bool.false_ne_true, hwalk, languages_afterThemes]
      refine or_congr Iff.rfl ?_
      constructor
      · rintro ⟨name, hname, hloads, hresolved⟩
        exact ⟨rfl, hloads, name, hname, hresolved⟩
      · rintro ⟨-, hloads, name, hname, hresolved⟩
        exact ⟨name, hname, hloads, hresolved⟩

/-! ## What is asked of the engine -/

/-- How many of the exchanges are a call that succeeded. -/
def successes (c : EngineCall) (calls : List (Exchange σ)) : Nat :=
  calls.countP fun x => x.call = c ∧ x.failure = none

theorem successes_append (c : EngineCall) (calls calls' : List (Exchange σ)) :
    successes c (calls ++ calls') = successes c calls + successes c calls' :=
  List.countP_append

/-- Whether what a call loads counts as loaded. -/
def holds {τ : Type} (p : Pipeline τ) : EngineCall → Bool
  | .language l => p.languages.contains l
  | .theme id => p.themes.contains id
  | .render _ _ | .settings => false

variable {p q r : Pipeline (σ × List (Exchange σ))}

/-- `q` comes from `p` by exchanges in which a load succeeds once if what it loads
counts as loaded only now, and not at all otherwise. -/
structure LoadsOnce (e : Engine σ) (p q : Pipeline (σ × List (Exchange σ))) : Prop where
  talks : ∃ calls, Talks e p q calls ∧
    ∀ c, successes c calls + (p.holds c).toNat = (q.holds c).toNat

theorem LoadsOnce.engine (h : LoadsOnce e p q) : q.engine = e.recorded := by
  obtain ⟨calls, htalks, -⟩ := h.talks
  exact htalks.engine

theorem LoadsOnce.refl (hp : p.engine = e.recorded) : LoadsOnce e p p :=
  ⟨[], Talks.refl hp, fun _ => Nat.zero_add _⟩

theorem LoadsOnce.trans (h : LoadsOnce e p q) (h' : LoadsOnce e q r) : LoadsOnce e p r := by
  obtain ⟨calls, htalks, hcounts⟩ := h.talks
  obtain ⟨calls', htalks', hcounts'⟩ := h'.talks
  refine ⟨calls ++ calls', htalks.trans htalks', fun c => ?_⟩
  have hfirst := hcounts c
  have hsecond := hcounts' c
  rw [successes_append]
  omega

/-- One load of what does not count as loaded: it does from then on if the load
succeeds. -/
theorem loadsOnce_of_call {x : Exchange σ} (htalks : Talks e p q [x])
    (hnew : p.holds x.call = false)
    (hholds : ∀ c, q.holds c = (p.holds c || decide (c = x.call ∧ x.failure = none))) :
    LoadsOnce e p q := by
  refine ⟨[x], htalks, fun c => ?_⟩
  rw [hholds c, successes, List.countP_singleton]
  by_cases hc : c = x.call
  · subst hc
    by_cases hx : x.failure = none <;> simp [hx, hnew]
  · simp [hc, Ne.symm hc]

theorem loadsOnce_ensureTheme (hp : p.engine = e.recorded) (t : String) :
    LoadsOnce e p ((ensureTheme t).run p).2 := by
  rw [ensureTheme_run, hp, recorded_loadTheme]
  split
  · exact LoadsOnce.refl hp
  · rename_i hnew
    generalize e.loadTheme t p.state.1 = x
    obtain ⟨result, state⟩ := x
    refine loadsOnce_of_call (x := ⟨p.state.1, .theme t, failure? result⟩)
      (by cases result <;> exact ⟨rfl, rfl⟩) (by simpa [holds] using hnew) fun c => ?_
    cases result <;> cases c <;> simp [holds, failure?, mem_addName, Bool.or_comm]

theorem loadsOnce_ensureLanguage (hp : p.engine = e.recorded) (l : String) :
    LoadsOnce e p ((ensureLanguage l).run p).2 := by
  rw [ensureLanguage_run, hp, recorded_loadLanguage]
  split
  · exact LoadsOnce.refl hp
  · rename_i hnew
    generalize e.loadLanguage l p.state.1 = x
    obtain ⟨result, state⟩ := x
    refine loadsOnce_of_call (x := ⟨p.state.1, .language l, failure? result⟩)
      (by cases result <;> exact ⟨rfl, rfl⟩) (by simpa [holds] using hnew) fun c => ?_
    cases result <;> cases c <;> simp [holds, failure?, mem_addName, Bool.or_comm]

theorem loadsOnce_preloadLanguage (hp : p.engine = e.recorded) (language : String) :
    LoadsOnce e p (preloadLanguage language p).2 := by
  rw [preloadLanguage_run]
  cases p.resolveLanguage language with
  | none => exact LoadsOnce.refl hp
  | some resolved => exact loadsOnce_ensureLanguage hp resolved

/-- **Loading ahead loads nothing twice**, however the engine answers. -/
theorem loadsOnce_preload (hp : p.engine = e.recorded) : LoadsOnce e p (preload p).2 := by
  have hthemes : LoadsOnce e p p.afterThemes :=
    Kept.forM (fun t q hq => hq.trans (loadsOnce_ensureTheme hq.engine t)) _ (LoadsOnce.refl hp)
  rw [preload_run]
  split
  · exact hthemes
  · exact Kept.forM (fun l q hq => hq.trans (loadsOnce_preloadLanguage hq.engine l)) _ hthemes

end Pipeline

namespace Session

open Pipeline

/-- **Everything that can be loaded ahead is loaded, by one load each.**  Take an
engine that always answers a load in the same way, and any history.  When the
pipeline is made ready then, the themes that count as loaded are those that did
before and every theme that the settings name and the engine can load; so are the
languages, by the engine languages that the names of the settings stand for, unless
languages are loaded when they are needed.  A load succeeds once if what it loads
counts as loaded only now, and not at all otherwise.  And the same is loaded if the
settings name the same themes and languages in another order, or some of them more
often. -/
theorem preload_exact (F : FixedLoads e) {state : σ} {s : Settings}
    (hstart : F.Serves s.customThemePath state) (events : List Event) :
    let x := (start e.recorded (state, []) s).live events
    let p := x.pipeline
    let q := (preload p).2
    (start e state s).live (events ++ [.operation .preload]) = (x.step .preload).unrecorded e ∧
    (∀ t, t ∈ q.themes ↔ t ∈ p.themes ∨ F.themeLoads p.settings.customThemePath t = true ∧
      (t ∈ p.settings.themes ∨ t = p.settings.defaultTheme ∨ t = p.settings.darkTheme ∨
        t = p.settings.lightTheme)) ∧
    (∀ l, l ∈ q.languages ↔ l ∈ p.languages ∨ p.settings.lazyLoading = false ∧
      F.languageLoads l = true ∧
        ∃ name ∈ p.settings.languages, p.resolveLanguage name = some l) ∧
    (∃ calls, q.exchanges = p.exchanges ++ calls ∧
      ∀ c, successes c calls = if q.holds c && !p.holds c then 1 else 0) ∧
    ∀ themes languages, (∀ t, t ∈ themes ↔ t ∈ p.settings.themes) →
      (∀ l, l ∈ languages ↔ l ∈ p.settings.languages) →
        let other := (preload { p with settings := { p.settings with themes, languages } }).2
        (∀ t, t ∈ other.themes ↔ t ∈ q.themes) ∧ ∀ l, l ∈ other.languages ↔ l ∈ q.languages := by
  intro x p q
  have hserves : F.recorded.Serves s.customThemePath (state, []) := hstart
  have hp : Served F.recorded p.settings p := served_live F.recorded hserves events
  have hthemes := hp.mem_themes_preload
  have hlanguages := hp.mem_languages_preload
  refine ⟨?_, hthemes, hlanguages, ?_, ?_⟩
  · rw [unrecorded_live, live, List.foldl_append]
    rfl
  · obtain ⟨calls, htalks, hcounts⟩ := (loadsOnce_preload hp.engine).talks
    refine ⟨calls, htalks.exchanges, fun c => ?_⟩
    -- What is held was held before, or one load of it went well.
    have hcount := hcounts c
    change successes c calls + (p.holds c).toNat = (q.holds c).toNat at hcount
    revert hcount
    cases p.holds c <;> cases q.holds c <;> simp
  · intro themes languages hsameThemes hsameLanguages other
    have hother : Served F.recorded { p.settings with themes, languages }
        { p with settings := { p.settings with themes, languages } } :=
      ⟨hp.engine, rfl, hp.serves⟩
    refine ⟨fun t => ?_, fun l => ?_⟩
    · rw [hother.mem_themes_preload, hthemes]
      simp only [hsameThemes]
    · rw [hother.mem_languages_preload, hlanguages]
      simp only [hsameLanguages]
      rfl

/-- Four names, of which two stand for one language and one for none; an engine that
cannot load the language of another one, and that forgets themes at once; and a theme
that is named twice. -/
theorem preload_exact_aliases :
    let script : Script :=
      { supported := ["javascript", "rust", "text"], themes := ["monokai", "dark-plus"]
        loadFails := ["rust"], forgetful := true }
    let s : Settings :=
      { themes := ["none", "monokai", "monokai"], languages := ["cobol", "js", "rs", "javascript"] }
    let p := ((start script.engine.recorded ([], []) s).live []).pipeline
    let q := (preload p).2
    script.fixedLoads.Serves s.customThemePath [] ∧
      (∀ t, t ∈ q.themes ↔ t = "monokai" ∨ t = "dark-plus") ∧
      (∀ l, l ∈ q.languages ↔ l = "javascript") ∧
      successes (.language "javascript") q.exchanges = 1 := by
  intro script s p q
  have hstart : script.fixedLoads.Serves s.customThemePath [] := trivial
  obtain ⟨-, hthemes, hlanguages, ⟨calls, hcalls, hcounts⟩, -⟩ :=
    preload_exact script.fixedLoads hstart []
  have hjavascript : ∀ l, l ∈ q.languages ↔ l = "javascript" := by
    have hresolved : s.languages.map p.resolveLanguage =
        [none, some "javascript", some "rust", some "javascript"] := by decide +kernel
    intro l
    rw [hlanguages]
    change l ∈ p.languages ∨ p.settings.lazyLoading = false ∧
      script.fixedLoads.languageLoads l = true ∧
        (∃ name ∈ s.languages, p.resolveLanguage name = some l) ↔ l = "javascript"
    rw [← List.mem_map (f := p.resolveLanguage), hresolved]
    constructor
    · rintro (hloaded | ⟨-, hloads, hnamed⟩)
      · cases hloaded
      · simp only [List.mem_cons, List.not_mem_nil, reduceCtorEq, Option.some.injEq, false_or,
          or_false] at hnamed
        rcases hnamed with rfl | rfl | rfl
        · rfl
        · exact absurd hloads (by decide)
        · rfl
    · rintro rfl
      exact Or.inr ⟨rfl, by decide, by simp⟩
  refine ⟨hstart, fun t => ?_, hjavascript, ?_⟩
  · rw [hthemes]
    constructor
    · rintro (hloaded | ⟨hloads, hnamed | rfl | rfl | rfl⟩)
      · cases hloaded
      · change t ∈ ["none", "monokai", "monokai"] at hnamed
        simp only [List.mem_cons, List.not_mem_nil, or_false] at hnamed
        rcases hnamed with rfl | rfl | rfl
        · exact absurd hloads (by decide)
        · exact Or.inl rfl
        · exact Or.inl rfl
      · exact Or.inr rfl
      · exact Or.inr rfl
      · exact absurd hloads (by decide)
    · rintro (rfl | rfl)
      · exact Or.inr ⟨by decide, Or.inl (by decide)⟩
      · exact Or.inr ⟨by decide, Or.inr (Or.inl rfl)⟩
  · have hheld : q.holds (.language "javascript") = true :=
      List.contains_iff_mem.mpr ((hjavascript _).mpr rfl)
    have hnew : p.holds (.language "javascript") = false := rfl
    have hcount := hcounts (.language "javascript")
    change successes _ calls = if q.holds _ && !p.holds _ then 1 else 0 at hcount
    change q.exchanges = [] ++ calls at hcalls
    rw [hcalls, List.nil_append, hcount, hheld, hnew]
    rfl

end Session

end CodeFence
