import CodeFence.Engine.Recorded
import CodeFence.Proofs.PipelineSession

/-!
# Pipelines over recorded engines

What a pipeline asks of its engine is seen by giving it an engine that keeps
each exchange.  Nothing else is different then.

* `Pipeline.unrecorded` — the pipeline without the record;
* `Session.unrecorded_live` — recording does not show: through any history, the
  pipeline over the recorded engine is the one over the engine itself.
-/

namespace CodeFence

open Markup

variable {σ : Type} {e : Engine σ}

namespace Pipeline

/-- What the engine has been asked so far. -/
def exchanges (p : Pipeline (σ × List (Exchange σ))) : List (Exchange σ) :=
  p.state.2

/-- The pipeline over the engine itself, without a record. -/
def unrecorded (e : Engine σ) (p : Pipeline (σ × List (Exchange σ))) : Pipeline σ where
  engine := e
  state := p.state.1
  settings := p.settings
  cache := p.cache
  languages := p.languages
  themes := p.themes
  mode := p.mode

/-- What an action answers, and the pipeline that it leaves without a record. -/
def unrecordedAnswer {α : Type} (e : Engine σ) (r : α × Pipeline (σ × List (Exchange σ))) :
    α × Pipeline σ :=
  (r.1, r.2.unrecorded e)

/-- Every talk with a recorded engine leaves it a recorded engine. -/
theorem kept_recorded (e : Engine σ) :
    Kept fun p : Pipeline (σ × List (Exchange σ)) => p.engine = e.recorded :=
  Kept.of_onlyLoads fun _ _ h hp => h.engine.trans hp

variable {p : Pipeline (σ × List (Exchange σ))}

theorem resolveLanguage_unrecorded (hp : p.engine = e.recorded) (language : String) :
    (p.unrecorded e).resolveLanguage language = p.resolveLanguage language := by
  unfold resolveLanguage
  rw [hp]
  rfl

theorem ensureLanguage_unrecorded (hp : p.engine = e.recorded) (l : String) :
    (ensureLanguage l).run (p.unrecorded e) = unrecordedAnswer e ((ensureLanguage l).run p) := by
  have hcontains : (p.unrecorded e).languages.contains l = p.languages.contains l := rfl
  have hload : (p.unrecorded e).engine.loadLanguage l (p.unrecorded e).state =
      e.loadLanguage l p.state.1 := rfl
  rw [ensureLanguage_run, ensureLanguage_run, hp, recorded_loadLanguage, hcontains, hload]
  split
  · rfl
  · generalize e.loadLanguage l p.state.1 = x
    obtain ⟨result, s⟩ := x
    cases result <;> rfl

theorem ensureTheme_unrecorded (hp : p.engine = e.recorded) (theme : String) :
    (ensureTheme theme).run (p.unrecorded e) =
      unrecordedAnswer e ((ensureTheme theme).run p) := by
  have hcontains : (p.unrecorded e).themes.contains theme = p.themes.contains theme := rfl
  have hload : (p.unrecorded e).engine.loadTheme theme (p.unrecorded e).state =
      e.loadTheme theme p.state.1 := rfl
  rw [ensureTheme_run, ensureTheme_run, hp, recorded_loadTheme, hcontains, hload]
  split
  · rfl
  · generalize e.loadTheme theme p.state.1 = x
    obtain ⟨result, s⟩ := x
    cases result <;> rfl

theorem render_unrecorded (hp : p.engine = e.recorded) (code l theme : String) :
    (call fun e => e.render code l theme).run (p.unrecorded e) =
      unrecordedAnswer e ((call fun e => e.render code l theme).run p) := by
  rw [call_run, call_run, hp]
  rfl

theorem renderLoaded_unrecorded (hp : p.engine = e.recorded) (code l theme : String) :
    (renderLoaded code l theme).run (p.unrecorded e) =
      unrecordedAnswer e ((renderLoaded code l theme).run p) := by
  have hrender : (p.unrecorded e).engine.render code l theme (p.unrecorded e).state =
      e.render code l theme p.state.1 := rfl
  rw [renderLoaded_run, renderLoaded_run, hrender, hp, recorded_render]
  generalize e.render code l theme p.state.1 = x
  obtain ⟨result, s⟩ := x
  cases result with
  | ok d => rfl
  | error missing =>
      dsimp only
      split
      · have hforget : ∀ log, (p.unrecorded e).forgetTheme theme s =
            (p.forgetTheme theme (s, log)).unrecorded e := fun _ => rfl
        generalize p.state.2 ++ _ = log
        have hq : (p.forgetTheme theme (s, log)).engine = e.recorded := hp
        have hengine := (kept_recorded e).theme theme _ hq
        rw [hforget log, ensureTheme_unrecorded hq]
        generalize (ensureTheme theme).run (p.forgetTheme theme (s, log)) = y at hengine ⊢
        obtain ⟨loaded, r⟩ := y
        cases loaded with
        | ok u => exact render_unrecorded hengine code l theme
        | error failure => rfl
      · rfl

theorem attempt_unrecorded (hp : p.engine = e.recorded) (code language theme : String) :
    (attempt code language theme).run (p.unrecorded e) =
      unrecordedAnswer e ((attempt code language theme).run p) := by
  rw [attempt_run, attempt_run, resolveLanguage_unrecorded hp]
  cases p.resolveLanguage language with
  | none => rfl
  | some l =>
      have hengine := (kept_recorded e).language l p hp
      dsimp only
      rw [ensureLanguage_unrecorded hp]
      generalize (ensureLanguage l).run p = x at hengine ⊢
      obtain ⟨loaded, q⟩ := x
      cases loaded with
      | ok u => exact renderLoaded_unrecorded hengine code l theme
      | error failure => rfl

theorem renderSomehow_unrecorded (hp : p.engine = e.recorded) (code language theme : String) :
    renderSomehow code language theme (p.unrecorded e) =
      unrecordedAnswer e (renderSomehow code language theme p) := by
  have hengine := (kept_recorded e).attempt code language theme hp
  rw [renderSomehow_run, renderSomehow_run, attempt_unrecorded hp]
  generalize (attempt code language theme).run p = x at hengine ⊢
  obtain ⟨result, q⟩ := x
  cases result with
  | ok d => rfl
  | error failure =>
      have hsettings : (q.unrecorded e).settings = q.settings := rfl
      dsimp only [unrecordedAnswer]
      rw [hsettings, attempt_unrecorded hengine]
      generalize (attempt code q.settings.fallbackLanguage theme).run q = x
      obtain ⟨result, r⟩ := x
      cases result <;> rfl

/-- A block does not tell whether it is recorded how it came about. -/
theorem highlighted_unrecorded (hp : p.engine = e.recorded) (code language theme : String)
    (now : Nat) :
    highlighted code language theme now (p.unrecorded e) =
      unrecordedAnswer e (highlighted code language theme now p) := by
  rcases highlighted_cases code language theme now p with
    ⟨hdisabled, heq⟩ | ⟨henabled, d, hfound, heq⟩ | ⟨henabled, hmiss, heq⟩
  · rw [heq, highlighted_of_disabled (p := p.unrecorded e) hdisabled, renderSomehow_unrecorded hp]
  · rw [heq, highlighted_of_hit (p := p.unrecorded e) henabled hfound]
    rfl
  · have hafter : (p.unrecorded e).afterGet code language theme now =
        (p.afterGet code language theme now).unrecorded e := rfl
    have hsomehow := renderSomehow_unrecorded (p := p.afterGet code language theme now) hp
      code language theme
    rw [heq, highlighted_of_miss (p := p.unrecorded e) henabled hmiss, hafter, hsomehow]
    rfl

theorem forM_unrecorded {f : String → StateM (Pipeline σ) PUnit}
    {g : String → StateM (Pipeline (σ × List (Exchange σ))) PUnit}
    (hengine : ∀ a p, p.engine = e.recorded → (g a p).2.engine = e.recorded)
    (heq : ∀ a p, p.engine = e.recorded → (f a (p.unrecorded e)).2 = (g a p).2.unrecorded e)
    (names : List String) (hp : p.engine = e.recorded) :
    (names.forM f (p.unrecorded e)).2 = (names.forM g p).2.unrecorded e := by
  induction names generalizing p with
  | nil => rfl
  | cons a rest ih =>
      have hrest := ih (hengine a p hp)
      rw [← heq a p hp] at hrest
      exact hrest

theorem preloadLanguage_unrecorded (hp : p.engine = e.recorded) (language : String) :
    (preloadLanguage language (p.unrecorded e)).2 =
      (preloadLanguage language p).2.unrecorded e := by
  rw [preloadLanguage_run, preloadLanguage_run, resolveLanguage_unrecorded hp]
  cases p.resolveLanguage language with
  | none => rfl
  | some l => exact congrArg Prod.snd (ensureLanguage_unrecorded hp l)

theorem preload_unrecorded (hp : p.engine = e.recorded) :
    (preload (p.unrecorded e)).2 = (preload p).2.unrecorded e := by
  have hkept := kept_recorded e
  have htheme : ((preloadThemes p.settings).forM preloadTheme (p.unrecorded e)).2 =
      ((preloadThemes p.settings).forM preloadTheme p).2.unrecorded e :=
    forM_unrecorded (fun t q hq => hkept.theme t q hq)
      (fun t q hq => congrArg Prod.snd (ensureTheme_unrecorded hq t)) _ hp
  have hengine : ((preloadThemes p.settings).forM preloadTheme p).2.engine = e.recorded :=
    Kept.forM (fun t q hq => hkept.theme t q hq) _ hp
  change ((if p.settings.lazyLoading then pure () else
      p.settings.languages.forM preloadLanguage : StateM _ _)
        ((preloadThemes p.settings).forM preloadTheme (p.unrecorded e)).2).2 =
    ((if p.settings.lazyLoading then pure () else
      p.settings.languages.forM preloadLanguage : StateM _ _)
        ((preloadThemes p.settings).forM preloadTheme p).2).2.unrecorded e
  rw [htheme]
  split
  · rfl
  · exact forM_unrecorded (fun l q hq => hkept.preloadLanguage l hq)
      (fun l q hq => preloadLanguage_unrecorded hq l) _ hengine

end Pipeline

namespace Session

open Pipeline

/-- The session over the engine itself. -/
def unrecorded (e : Engine σ) (x : Session (σ × List (Exchange σ))) : Session σ where
  pipeline := x.pipeline.unrecorded e
  now := x.now

variable {x : Session (σ × List (Exchange σ))}

theorem unrecorded_step (hx : x.pipeline.engine = e.recorded) (o : Operation) :
    (x.unrecorded e).step o = (x.step o).unrecorded e := by
  cases o with
  | preload =>
      exact congrArg (Session.mk · x.now) (preload_unrecorded hx)
  | render code language config asked =>
      exact congrArg (fun r => Session.mk r.2 x.now) (highlighted_unrecorded hx code language
        (x.pipeline.resolveTheme config asked) x.now)
  | renderInline code language =>
      exact congrArg (fun r => Session.mk r.2 x.now) (highlighted_unrecorded hx code language
        (x.pipeline.resolveTheme { language } none) x.now)
  | setMode mode => rfl
  | clearCache => rfl
  | wait milliseconds => rfl

theorem unrecorded_update (hx : x.pipeline.engine = e.recorded) (s : Settings) :
    (x.unrecorded e).update s = (x.update s).unrecorded e := by
  unfold update updateSettings
  rw [hx]
  rfl

/-- The engine of a session stays the one it was started with. -/
theorem engine_live {τ : Type} (y : Session τ) (events : List Event) :
    (y.live events).pipeline.engine = y.pipeline.engine := by
  have hlasting : Lasting fun z : Session τ => z.pipeline.engine = y.pipeline.engine :=
    (framed_of_frame fun engine _ => engine = y.pipeline.engine).lasting
  exact hlasting.live (fun _ _ hz => hz) rfl events

/-- **Recording does not show.** -/
theorem unrecorded_live (e : Engine σ) (state : σ) (s : Settings) (events : List Event) :
    (start e state s).live events =
      ((start e.recorded (state, []) s).live events).unrecorded e := by
  have hlive : ∀ (events : List Event) (x : Session (σ × List (Exchange σ))),
      x.pipeline.engine = e.recorded →
        (x.unrecorded e).live events = (x.live events).unrecorded e := by
    intro events
    induction events with
    | nil => intro x hx; rfl
    | cons event rest ih =>
        intro x hx
        have hengine := engine_live x [event]
        cases event with
        | operation o =>
            change ((x.unrecorded e).step o).live rest = ((x.step o).live rest).unrecorded e
            rw [unrecorded_step hx]
            exact ih _ (hengine.trans hx)
        | update s =>
            change ((x.unrecorded e).update s).live rest = ((x.update s).live rest).unrecorded e
            rw [unrecorded_update hx]
            exact ih _ (hengine.trans hx)
  exact hlive events (start e.recorded (state, []) s) rfl

end Session

end CodeFence
