import CodeFence.Pipeline

/-!
# The steps of a pipeline

A pipeline is written as actions that may fail and that go through states.
This file says of each action what it answers and which pipeline it leaves, as
equations between plain functions, so that no later proof unfolds an action.

* `call_run`, `ensureLanguage_run`, `ensureTheme_run`, `renderLoaded_run`,
  `attempt_run`, `renderSomehow_run` — one equation for each action;
* `highlighted_cases` — the three ways to a highlighted source;
* `OnlyLoads` — the frame of everything that talks to the engine: whatever an
  engine answers, only its state and the two lists of what is loaded change;
* `attempt_ok` — a document comes out of an attempt only if the engine has
  answered with it.
-/

namespace CodeFence.Pipeline

open Markup

variable {σ α β : Type}

/-- An action is run, and unless it fails the next one goes on from the
pipeline that it leaves. -/
theorem run_bind (x : ExceptT EngineError (StateM (Pipeline σ)) α)
    (f : α → ExceptT EngineError (StateM (Pipeline σ)) β) (p : Pipeline σ) :
    (x >>= f).run p =
      match x.run p with
      | (.ok a, q) => (f a).run q
      | (.error e, q) => (.error e, q) := by
  simp only [bind, ExceptT.bind, ExceptT.mk, ExceptT.run, StateT.bind]
  rcases x p with ⟨r, q⟩
  cases r <;> rfl

/-- An action that fails leaves its pipeline to the one that handles the
failure. -/
theorem run_tryCatch (x : ExceptT EngineError (StateM (Pipeline σ)) α)
    (f : EngineError → ExceptT EngineError (StateM (Pipeline σ)) α) (p : Pipeline σ) :
    (tryCatch x f).run p =
      match x.run p with
      | (.ok a, q) => (.ok a, q)
      | (.error e, q) => (f e).run q := by
  simp only [tryCatch, tryCatchThe, MonadExceptOf.tryCatch, ExceptT.tryCatch, ExceptT.mk,
    ExceptT.run, bind, StateT.bind]
  rcases x p with ⟨r, q⟩
  cases r <;> rfl

theorem state_bind (x : StateM (Pipeline σ) α) (f : α → StateM (Pipeline σ) β)
    (p : Pipeline σ) : (x >>= f) p = f (x p).1 (x p).2 := rfl

theorem run_get (p : Pipeline σ) :
    (get : ExceptT EngineError (StateM (Pipeline σ)) (Pipeline σ)).run p = (.ok p, p) := rfl

theorem run_modify (f : Pipeline σ → Pipeline σ) (p : Pipeline σ) :
    (modify f : ExceptT EngineError (StateM (Pipeline σ)) PUnit).run p = (.ok (), f p) := rfl

/-- An engine call answers what the engine answers, and changes its state
alone. -/
theorem call_run (f : Engine σ → σ → Except EngineError α × σ) (p : Pipeline σ) :
    (call f).run p = ((f p.engine p.state).1, { p with state := (f p.engine p.state).2 }) := by
  rcases h : f p.engine p.state with ⟨r, st⟩
  simp only [call, run_bind, run_get, h]
  cases r <;> rfl

theorem ensureLanguage_run (language : String) (p : Pipeline σ) :
    (ensureLanguage language).run p =
      if p.languages.contains language then (.ok (), p)
      else match p.engine.loadLanguage language p.state with
        | (.ok _, state) =>
          (.ok (), { p with state, languages := addName language p.languages })
        | (.error e, state) => (.error e, { p with state }) := by
  simp only [ensureLanguage, run_bind, run_get]
  cases p.languages.contains language with
  | true => rfl
  | false =>
      simp only [Bool.not_false, if_true, run_bind, call_run]
      rcases p.engine.loadLanguage language p.state with ⟨r, state⟩
      cases r <;> rfl

theorem ensureTheme_run (theme : String) (p : Pipeline σ) :
    (ensureTheme theme).run p =
      if p.themes.contains theme then (.ok (), p)
      else match p.engine.loadTheme theme p.state with
        | (.ok _, state) => (.ok (), { p with state, themes := addName theme p.themes })
        | (.error e, state) => (.error e, { p with state }) := by
  simp only [ensureTheme, run_bind, run_get]
  cases p.themes.contains theme with
  | true => rfl
  | false =>
      simp only [Bool.not_false, if_true, run_bind, call_run]
      rcases p.engine.loadTheme theme p.state with ⟨r, state⟩
      cases r <;> rfl

/-- The pipeline in which a theme that was not found is loaded: the theme does
not count as loaded any more. -/
def forgetTheme (theme : String) (state : σ) (p : Pipeline σ) : Pipeline σ :=
  { p with state, themes := p.themes.filter (· ≠ theme) }

/-- A forgotten theme is loaded again, whatever was loaded before. -/
theorem ensureTheme_run_forgetTheme (theme : String) (state : σ) (p : Pipeline σ) :
    (ensureTheme theme).run (p.forgetTheme theme state) =
      match p.engine.loadTheme theme state with
      | (.ok _, state) =>
        (.ok (), { p.forgetTheme theme state with
          themes := addName theme (p.forgetTheme theme state).themes })
      | (.error e, state) => (.error e, p.forgetTheme theme state) := by
  have hgone : (p.forgetTheme theme state).themes.contains theme = false := by
    simp [forgetTheme]
  rw [ensureTheme_run, hgone]
  rfl

theorem renderLoaded_run (code language theme : String) (p : Pipeline σ) :
    (renderLoaded code language theme).run p =
      match p.engine.render code language theme p.state with
      | (.ok d, state) => (.ok d, { p with state })
      | (.error e, state) =>
        if e.isThemeNotFound then
          match (ensureTheme theme).run (p.forgetTheme theme state) with
          | (.ok _, q) => (call fun e => e.render code language theme).run q
          | (.error e, q) => (.error e, q)
        else (.error e, { p with state }) := by
  rw [renderLoaded, run_tryCatch, call_run]
  rcases p.engine.render code language theme p.state with ⟨r, state⟩
  cases r with
  | ok d => rfl
  | error e =>
      dsimp only
      split
      · rw [run_bind, run_modify]
        change (ensureTheme theme >>= fun _ => _).run (p.forgetTheme theme state) = _
        rw [run_bind]
        rcases (ensureTheme theme).run (p.forgetTheme theme state) with ⟨r, q⟩
        cases r <;> rfl
      · rfl

theorem attempt_run (code language theme : String) (p : Pipeline σ) :
    (attempt code language theme).run p =
      match p.resolveLanguage language with
      | none => (.error (.languageUnusable language "not supported"), p)
      | some resolved =>
        match (ensureLanguage resolved).run p with
        | (.ok _, q) => (renderLoaded code resolved theme).run q
        | (.error e, q) => (.error e, q) := by
  rw [attempt, run_bind, run_get]
  dsimp only
  cases p.resolveLanguage language with
  | none => rfl
  | some resolved =>
      dsimp only
      rw [run_bind]
      rcases (ensureLanguage resolved).run p with ⟨r, q⟩
      cases r <;> rfl

theorem renderSomehow_run (code language theme : String) (p : Pipeline σ) :
    renderSomehow code language theme p =
      match (attempt code language theme).run p with
      | (.ok d, q) => ((d, .rendered), q)
      | (.error _, q) =>
        match (attempt code q.settings.fallbackLanguage theme).run q with
        | (.ok d, r) => ((d, .fallback), r)
        | (.error _, r) => ((Document.plain code, .plain), r) := by
  rw [renderSomehow, state_bind]
  rcases (attempt code language theme).run p with ⟨r, q⟩
  cases r with
  | ok d => rfl
  | error e =>
      dsimp only
      rw [state_bind]
      change ((attempt code q.settings.fallbackLanguage theme).run >>= _) q = _
      rw [state_bind]
      rcases (attempt code q.settings.fallbackLanguage theme).run q with ⟨r, s⟩
      cases r <;> rfl

/-- A language that the engine cannot do is not loaded ahead. -/
theorem preloadLanguage_run (language : String) (p : Pipeline σ) :
    (preloadLanguage language p).2 =
      (p.resolveLanguage language).elim p fun l => ((ensureLanguage l).run p).2 := by
  change ((match p.resolveLanguage language with
    | none => pure ()
    | some resolved => do let _ ← (ensureLanguage resolved).run : StateM _ Unit) p).2 = _
  cases p.resolveLanguage language with
  | none => rfl
  | some resolved => rfl

/-- A property that every talk with the engine keeps, whatever the engine
answers. -/
structure Kept (P : Pipeline σ → Prop) : Prop where
  language : ∀ l p, P p → P ((ensureLanguage l).run p).2
  theme : ∀ t p, P p → P ((ensureTheme t).run p).2
  render : ∀ code l t p, P p → P { p with state := (p.engine.render code l t p.state).2 }
  forget : ∀ t p, P p → P { p with themes := p.themes.filter (· ≠ t) }

namespace Kept

variable {P : Pipeline σ → Prop} {p : Pipeline σ}

theorem renderLoaded (hP : Kept P) (code language theme : String) (hp : P p) :
    P ((renderLoaded code language theme).run p).2 := by
  have hrender := hP.render code language theme p hp
  rw [renderLoaded_run]
  rcases hr : p.engine.render code language theme p.state with ⟨r, state⟩
  rw [hr] at hrender
  cases r with
  | ok d => exact hrender
  | error e =>
      dsimp only
      split
      · have hforget := hP.theme theme _ (hP.forget theme _ hrender)
        change P ((ensureTheme theme).run (p.forgetTheme theme state)).2 at hforget
        generalize (ensureTheme theme).run (p.forgetTheme theme state) = x at hforget ⊢
        obtain ⟨r, q⟩ := x
        cases r with
        | ok u =>
            dsimp only
            rw [call_run]
            exact hP.render code language theme q hforget
        | error e => exact hforget
      · exact hrender

theorem attempt (hP : Kept P) (code language theme : String) (hp : P p) :
    P ((attempt code language theme).run p).2 := by
  rw [attempt_run]
  cases p.resolveLanguage language with
  | none => exact hp
  | some resolved =>
      have hlanguage := hP.language resolved p hp
      dsimp only
      generalize (ensureLanguage resolved).run p = x at hlanguage ⊢
      obtain ⟨r, q⟩ := x
      cases r with
      | ok u => exact hP.renderLoaded code resolved theme hlanguage
      | error e => exact hlanguage

theorem renderSomehow (hP : Kept P) (code language theme : String) (hp : P p) :
    P (renderSomehow code language theme p).2 := by
  have hfirst := hP.attempt code language theme hp
  rw [renderSomehow_run]
  generalize (Pipeline.attempt code language theme).run p = x at hfirst ⊢
  obtain ⟨r, q⟩ := x
  cases r with
  | ok d => exact hfirst
  | error e =>
      have hsecond := hP.attempt code q.settings.fallbackLanguage theme hfirst
      dsimp only at hsecond ⊢
      generalize (Pipeline.attempt code q.settings.fallbackLanguage theme).run q = x at hsecond ⊢
      obtain ⟨r, s⟩ := x
      cases r <;> exact hsecond

theorem and {Q : Pipeline σ → Prop} (hP : Kept P) (hQ : Kept Q) : Kept fun p => P p ∧ Q p where
  language l p hp := ⟨hP.language l p hp.1, hQ.language l p hp.2⟩
  theme t p hp := ⟨hP.theme t p hp.1, hQ.theme t p hp.2⟩
  render code l t p hp := ⟨hP.render code l t p hp.1, hQ.render code l t p hp.2⟩
  forget t p hp := ⟨hP.forget t p hp.1, hQ.forget t p hp.2⟩

/-- What every element of a list keeps, the walk over the list keeps. -/
theorem forM {f : String → StateM (Pipeline σ) PUnit} (hf : ∀ a p, P p → P (f a p).2)
    (names : List String) (hp : P p) : P (names.forM f p).2 := by
  induction names generalizing p with
  | nil => exact hp
  | cons a rest ih => exact ih (hf a p hp)

theorem preloadLanguage (hP : Kept P) (language : String) (hp : P p) :
    P (preloadLanguage language p).2 := by
  rw [preloadLanguage_run]
  cases p.resolveLanguage language with
  | none => exact hp
  | some resolved => exact hP.language resolved p hp

/-- Loading ahead keeps what every single load keeps. -/
theorem preload (hP : Kept P) (hp : P p) : P (preload p).2 := by
  have hthemes : P ((preloadThemes p.settings).forM preloadTheme p).2 :=
    forM (fun t q hq => hP.theme t q hq) _ hp
  change P ((if p.settings.lazyLoading then pure () else
    p.settings.languages.forM Pipeline.preloadLanguage : StateM _ _) _).2
  split
  · exact hthemes
  · exact forM (fun l q hq => hP.preloadLanguage l hq) _ hthemes

end Kept

/-- `q` differs from `p` at most in the engine's state and in what is loaded. -/
structure OnlyLoads (p q : Pipeline σ) : Prop where
  engine : q.engine = p.engine
  settings : q.settings = p.settings
  cache : q.cache = p.cache
  mode : q.mode = p.mode

theorem OnlyLoads.refl (p : Pipeline σ) : OnlyLoads p p := ⟨rfl, rfl, rfl, rfl⟩

/-- **The frame of the engine.**  No answer of an engine changes the settings,
the cache or the mode. -/
theorem kept_onlyLoads (p : Pipeline σ) : Kept (OnlyLoads p) where
  language l q hq := by
    rw [ensureLanguage_run]
    split
    · exact hq
    · rcases q.engine.loadLanguage l q.state with ⟨r, state⟩
      cases r <;> exact ⟨hq.engine, hq.settings, hq.cache, hq.mode⟩
  theme t q hq := by
    rw [ensureTheme_run]
    split
    · exact hq
    · rcases q.engine.loadTheme t q.state with ⟨r, state⟩
      cases r <;> exact ⟨hq.engine, hq.settings, hq.cache, hq.mode⟩
  render _ _ _ _ hq := ⟨hq.engine, hq.settings, hq.cache, hq.mode⟩
  forget _ _ hq := ⟨hq.engine, hq.settings, hq.cache, hq.mode⟩

/-- What does not see the engine's state and what is loaded is kept. -/
theorem Kept.of_onlyLoads {P : Pipeline σ → Prop} (h : ∀ p q, OnlyLoads p q → P p → P q) :
    Kept P where
  language l p hp := h p _ ((kept_onlyLoads p).language l p (OnlyLoads.refl p)) hp
  theme t p hp := h p _ ((kept_onlyLoads p).theme t p (OnlyLoads.refl p)) hp
  render code l t p hp := h p _ ((kept_onlyLoads p).render code l t p (OnlyLoads.refl p)) hp
  forget t p hp := h p _ ((kept_onlyLoads p).forget t p (OnlyLoads.refl p)) hp

/-- A document that comes out of a loaded language is an answer of the engine
in that language and theme. -/
theorem renderLoaded_ok {code language theme : String} {p : Pipeline σ} {d : Document}
    (h : ((renderLoaded code language theme).run p).1 = .ok d) :
    ∃ state, (p.engine.render code language theme state).1 = .ok d := by
  rw [renderLoaded_run] at h
  rcases hr : p.engine.render code language theme p.state with ⟨r, state⟩
  rw [hr] at h
  cases r with
  | ok d' => exact ⟨p.state, by rw [hr]; exact h⟩
  | error e =>
      dsimp only at h
      split at h
      · have hframe := (kept_onlyLoads _).theme theme _ (OnlyLoads.refl (p.forgetTheme theme state))
        generalize (ensureTheme theme).run (p.forgetTheme theme state) = x at h hframe
        obtain ⟨r, q⟩ := x
        cases r with
        | ok u =>
            dsimp only at h
            rw [call_run] at h
            have hengine : q.engine = p.engine := hframe.engine
            exact ⟨q.state, by rw [← hengine]; exact h⟩
        | error e => cases h
      · cases h

/-- **Documents come from the engine.**  What an attempt gives, the engine has
rendered from the same source in the same theme. -/
theorem attempt_ok {code language theme : String} {p : Pipeline σ} {d : Document}
    (h : ((attempt code language theme).run p).1 = .ok d) :
    ∃ resolved state, (p.engine.render code resolved theme state).1 = .ok d := by
  rw [attempt_run] at h
  cases hl : p.resolveLanguage language with
  | none => rw [hl] at h; cases h
  | some resolved =>
      rw [hl] at h
      dsimp only at h
      have hframe := (kept_onlyLoads _).language resolved _ (OnlyLoads.refl p)
      generalize (ensureLanguage resolved).run p = x at h hframe
      obtain ⟨r, q⟩ := x
      cases r with
      | ok u =>
          obtain ⟨state, hstate⟩ := renderLoaded_ok h
          exact ⟨resolved, state, by rw [← hframe.engine]; exact hstate⟩
      | error e => cases h

/-- A block is rendered by the engine, or else it is the plain one. -/
theorem renderSomehow_fst (code language theme : String) (p : Pipeline σ) :
    (∃ resolved state,
      (p.engine.render code resolved theme state).1 = .ok (renderSomehow code language theme p).1.1) ∨
    (renderSomehow code language theme p).1 = (Document.plain code, .plain) := by
  have hframe := (kept_onlyLoads _).attempt code language theme (OnlyLoads.refl p)
  rw [renderSomehow_run]
  cases hfirst : (attempt code language theme).run p with
  | mk r q =>
      rw [hfirst] at hframe
      cases r with
      | ok d => exact Or.inl (attempt_ok (by rw [hfirst]))
      | error e =>
          dsimp only
          cases hsecond : (attempt code q.settings.fallbackLanguage theme).run q with
          | mk r s =>
              cases r with
              | ok d =>
                  obtain ⟨resolved, state, h⟩ := attempt_ok (d := d) (by rw [hsecond])
                  exact Or.inl ⟨resolved, state, by rw [← hframe.engine]; exact h⟩
              | error e => exact Or.inr rfl

section Highlighted

variable {code language theme : String} {now : Nat} {p : Pipeline σ}

theorem lookUp_of_disabled (key : CacheKey) (h : p.settings.cacheEnabled = false) :
    lookUp key code now p = (none, p) := by
  change (if p.settings.cacheEnabled then _ else _) = _
  rw [h]
  rfl

theorem lookUp_of_enabled (key : CacheKey) (h : p.settings.cacheEnabled = true) :
    lookUp key code now p =
      ((p.cache.get key code now).1, { p with cache := (p.cache.get key code now).2 }) := by
  change (if p.settings.cacheEnabled then _ else _) = _
  rw [h]
  rfl

theorem keep_of_disabled (key : CacheKey) (d : Document) (o : Outcome)
    (h : p.settings.cacheEnabled = false) : (keep key code d o now p).2 = p := by
  change (if p.settings.cacheEnabled then _ else _) = _
  rw [h]
  rfl

theorem keep_of_enabled (key : CacheKey) (d : Document) (o : Outcome)
    (h : p.settings.cacheEnabled = true) :
    (keep key code d o now p).2 =
      { p with cache := p.cache.put key (.of d code (o != .rendered) now) now } := by
  change (if p.settings.cacheEnabled then _ else _) = _
  rw [h]
  rfl

/-- Without a cache every block is rendered anew. -/
theorem highlighted_of_disabled (h : p.settings.cacheEnabled = false) :
    highlighted code language theme now p = renderSomehow code language theme p := by
  have hframe := (kept_onlyLoads _).renderSomehow code language theme (OnlyLoads.refl p)
  have hsame : (renderSomehow code language theme p).2.settings.cacheEnabled = false := by
    rw [hframe.settings]
    exact h
  rw [highlighted]
  dsimp only
  rw [state_bind, lookUp_of_disabled _ h]
  exact Prod.ext rfl (keep_of_disabled _ _ _ hsame)

/-- A document that the cache finds is the answer, and its class says whether
it is the plain one. -/
theorem highlighted_of_hit {d : Document} (h : p.settings.cacheEnabled = true)
    (hget : (p.cache.get (CacheKey.of code language theme) code now).1 = some d) :
    highlighted code language theme now p =
      ((d, if d.root.hasClass "plain" then .plain else .rendered),
        { p with cache := (p.cache.get (CacheKey.of code language theme) code now).2 }) := by
  rw [highlighted]
  dsimp only
  rw [state_bind, lookUp_of_enabled _ h, hget]
  rfl

/-- The pipeline after a look into the cache. -/
def afterGet (code language theme : String) (now : Nat) (p : Pipeline σ) : Pipeline σ :=
  { p with cache := (p.cache.get (CacheKey.of code language theme) code now).2 }

/-- What the cache does not find is rendered and kept. -/
theorem highlighted_of_miss (h : p.settings.cacheEnabled = true)
    (hget : (p.cache.get (CacheKey.of code language theme) code now).1 = none) :
    let r := renderSomehow code language theme (p.afterGet code language theme now)
    highlighted code language theme now p =
      (r.1, { r.2 with
        cache := r.2.cache.put (CacheKey.of code language theme)
          (.of r.1.1 code (r.1.2 != .rendered) now) now }) := by
  intro r
  have hframe := (kept_onlyLoads _).renderSomehow code language theme
    (OnlyLoads.refl (p.afterGet code language theme now))
  have hsame : r.2.settings.cacheEnabled = true := by
    rw [hframe.settings]
    exact h
  rw [highlighted]
  dsimp only
  rw [state_bind, lookUp_of_enabled _ h, hget]
  exact Prod.ext rfl (keep_of_enabled _ _ _ hsame)

end Highlighted

/-- **Three ways to a highlighted source.**  There is no cache, or the cache
finds the document, or it is rendered and kept. -/
theorem highlighted_cases (code language theme : String) (now : Nat) (p : Pipeline σ) :
    (p.settings.cacheEnabled = false ∧
      highlighted code language theme now p = renderSomehow code language theme p) ∨
    (p.settings.cacheEnabled = true ∧
      ∃ d, (p.cache.get (CacheKey.of code language theme) code now).1 = some d ∧
        highlighted code language theme now p =
          ((d, if d.root.hasClass "plain" then .plain else .rendered),
            p.afterGet code language theme now)) ∨
    (p.settings.cacheEnabled = true ∧
      (p.cache.get (CacheKey.of code language theme) code now).1 = none ∧
        let r := renderSomehow code language theme (p.afterGet code language theme now)
        highlighted code language theme now p =
          (r.1, { r.2 with
            cache := r.2.cache.put (CacheKey.of code language theme)
              (.of r.1.1 code (r.1.2 != .rendered) now) now })) := by
  cases henabled : p.settings.cacheEnabled with
  | false => exact Or.inl ⟨rfl, highlighted_of_disabled henabled⟩
  | true =>
      cases hget : (p.cache.get (CacheKey.of code language theme) code now).1 with
      | some d => exact Or.inr (Or.inl ⟨rfl, d, rfl, highlighted_of_hit henabled hget⟩)
      | none => exact Or.inr (Or.inr ⟨rfl, rfl, highlighted_of_miss henabled hget⟩)

/-- A block is the highlighted source with the passes that its configuration
and the settings call for. -/
theorem render_run (code language : String) (config : BlockConfig) (asked : Option String)
    (now : Nat) (p : Pipeline σ) :
    render code language config asked now p =
      let r := highlighted code language (p.resolveTheme config asked) now p
      (Pass.applyAll (Pass.select config r.2.settings)
        ⟨config, code, canonicalLanguage language⟩ r.1.1, r.2) := rfl

theorem renderInline_run (code language : String) (now : Nat) (p : Pipeline σ) :
    renderInline code language now p =
      let r := highlighted code language (p.resolveTheme { language } none) now p
      (if r.1.2 = .plain then escape code else r.1.1.innerCodeHtml, r.2) := rfl

end CodeFence.Pipeline
