import CodeFence.Proofs.CacheEntries
import CodeFence.Proofs.PipelineSteps

/-!
# Sessions

A pipeline is used by one call after another while time goes by.  A session is
a pipeline and a clock; a run is any finite sequence of operations, and a
history is one in which the settings may be replaced as well.

* `Lasting.run`, `Lasting.live` — what every single operation keeps, a run
  keeps, and a history too if new settings keep it;
* `highlighted_entry` — a block brings one entry into the cache at most, and
  that one is the rendering that was made of it;
* `Framed` — what sees neither the cache nor the mode and what every talk with
  the engine keeps; it lasts (`Framed.lasting`);
* `lasting_entries` — so does what holds of all entries, if it holds of every
  rendering when it is made;
* `highlighted_frame` — no block changes the engine, the settings or the mode.
-/

namespace CodeFence

open Markup

/-- One use of a pipeline, or some time that passes. -/
inductive Operation where
  | preload
  | render (code language : String) (config : BlockConfig) (asked : Option String)
  | renderInline (code language : String)
  | setMode (mode : Option DisplayMode)
  | clearCache
  | wait (milliseconds : Nat)

/-- What may happen to a pipeline: an operation, or new settings. -/
inductive Event where
  | operation (o : Operation)
  | update (s : Settings)

/-- A pipeline in use, and the time. -/
structure Session (σ : Type) where
  pipeline : Pipeline σ
  now : Nat := 0

namespace Pipeline

variable {σ : Type}

/-- A pipeline that has done nothing yet, in some display mode. -/
def fresh (engine : Engine σ) (state : σ) (s : Settings) (mode : Option DisplayMode) :
    Pipeline σ :=
  { start engine state s with mode }

end Pipeline

namespace Session

variable {σ : Type}

/-- A session that has not been used. -/
def start (engine : Engine σ) (state : σ) (s : Settings) : Session σ :=
  { pipeline := Pipeline.start engine state s }

/-- The session after one operation. -/
def step (x : Session σ) : Operation → Session σ
  | .preload => { x with pipeline := (Pipeline.preload x.pipeline).2 }
  | .render code language config asked =>
    { x with pipeline := (Pipeline.render code language config asked x.now x.pipeline).2 }
  | .renderInline code language =>
    { x with pipeline := (Pipeline.renderInline code language x.now x.pipeline).2 }
  | .setMode mode => { x with pipeline := { x.pipeline with mode } }
  | .clearCache => { x with pipeline := x.pipeline.clearCache }
  | .wait milliseconds => { x with now := x.now + milliseconds }

/-- The session after operations, first to last. -/
def run (x : Session σ) (operations : List Operation) : Session σ :=
  operations.foldl step x

/-- The session with new settings. -/
def update (x : Session σ) (s : Settings) : Session σ :=
  { x with pipeline := x.pipeline.updateSettings s }

/-- The session after an event. -/
def happen (x : Session σ) : Event → Session σ
  | .operation o => x.step o
  | .update s => x.update s

/-- The session after a history of events. -/
def live (x : Session σ) (events : List Event) : Session σ :=
  events.foldl happen x

/-- The block that the session would render now. -/
def render (x : Session σ) (code language : String) (config : BlockConfig)
    (asked : Option String) : Document :=
  (Pipeline.render code language config asked x.now x.pipeline).1

/-- The piece of code that the session would render now inside a line. -/
def renderInline (x : Session σ) (code language : String) : String :=
  (Pipeline.renderInline code language x.now x.pipeline).1

/-- A property that every operation keeps.  A block enters only as the
highlighted source that it is made of: the passes do not touch the session. -/
structure Lasting (P : Session σ → Prop) : Prop where
  preload : ∀ x, P x → P { x with pipeline := (Pipeline.preload x.pipeline).2 }
  highlighted : ∀ code language theme x, P x →
    P { x with pipeline := (Pipeline.highlighted code language theme x.now x.pipeline).2 }
  setMode : ∀ mode x, P x → P { x with pipeline := { x.pipeline with mode } }
  clearCache : ∀ x, P x → P { x with pipeline := x.pipeline.clearCache }
  wait : ∀ milliseconds x, P x → P { x with now := x.now + milliseconds }

namespace Lasting

variable {P : Session σ → Prop} {x : Session σ}

theorem step (hP : Lasting P) (hx : P x) (o : Operation) : P (x.step o) := by
  cases o with
  | preload => exact hP.preload x hx
  | render code language config asked =>
      exact hP.highlighted code language (x.pipeline.resolveTheme config asked) x hx
  | renderInline code language =>
      exact hP.highlighted code language (x.pipeline.resolveTheme { language } none) x hx
  | setMode mode => exact hP.setMode mode x hx
  | clearCache => exact hP.clearCache x hx
  | wait milliseconds => exact hP.wait milliseconds x hx

theorem run (hP : Lasting P) (hx : P x) (operations : List Operation) :
    P (x.run operations) := by
  induction operations generalizing x with
  | nil => exact hx
  | cons o rest ih => exact ih (hP.step hx o)

theorem and {Q : Session σ → Prop} (hP : Lasting P) (hQ : Lasting Q) :
    Lasting fun x => P x ∧ Q x where
  preload x hx := ⟨hP.preload x hx.1, hQ.preload x hx.2⟩
  highlighted code language theme x hx :=
    ⟨hP.highlighted code language theme x hx.1, hQ.highlighted code language theme x hx.2⟩
  setMode mode x hx := ⟨hP.setMode mode x hx.1, hQ.setMode mode x hx.2⟩
  clearCache x hx := ⟨hP.clearCache x hx.1, hQ.clearCache x hx.2⟩
  wait milliseconds x hx := ⟨hP.wait milliseconds x hx.1, hQ.wait milliseconds x hx.2⟩

theorem live (hP : Lasting P) (hupdate : ∀ s x, P x → P (x.update s)) (hx : P x)
    (events : List Event) : P (x.live events) := by
  induction events generalizing x with
  | nil => exact hx
  | cons event rest ih =>
      cases event with
      | operation o => exact ih (hP.step hx o)
      | update s => exact ih (hupdate s x hx)

end Lasting

end Session

namespace Pipeline

variable {σ : Type} {code language theme : String} {now : Nat} {p : Pipeline σ}

/-- **What a block leaves in the cache.**  An entry that is there afterwards
was there before, or it is the rendering that was made of the block. -/
theorem highlighted_entry {k : CacheKey} {e : CacheEntry}
    (h : (highlighted code language theme now p).2.cache.find? k = some e) :
    p.cache.find? k = some e ∨
      k = CacheKey.of code language theme ∧
        let r := (renderSomehow code language theme (p.afterGet code language theme now)).1
        e = .of r.1 code (r.2 != .rendered) now := by
  have hget := Cache.within_get p.cache (CacheKey.of code language theme) code now
  rcases highlighted_cases code language theme now p with
    ⟨-, heq⟩ | ⟨-, d, -, heq⟩ | ⟨-, -, heq⟩
  · have hframe := (kept_onlyLoads _).renderSomehow code language theme (OnlyLoads.refl p)
    rw [heq, hframe.cache] at h
    exact Or.inl h
  · rw [heq] at h
    exact Or.inl (hget.find? k e h)
  · rw [heq] at h
    dsimp only at h
    by_cases hk : k = CacheKey.of code language theme
    · subst hk
      rw [Cache.find?_put_self] at h
      exact Or.inr ⟨rfl, (Option.some.inj h).symm⟩
    · have hframe := (kept_onlyLoads _).renderSomehow code language theme
        (OnlyLoads.refl (p.afterGet code language theme now))
      have hbefore := Cache.find?_put_other hk h
      rw [hframe.cache] at hbefore
      exact Or.inl (hget.find? k e hbefore)

/-- A property that every talk with the engine keeps, and that sees neither the
cache nor the display mode. -/
structure Framed (S : Pipeline σ → Prop) : Prop extends Kept S where
  setCache : ∀ cache p, S p → S { p with cache }
  setMode : ∀ mode p, S p → S { p with mode }

/-- The engine and the settings are framed. -/
theorem framed_of_frame (Q : Engine σ → Settings → Prop) :
    Framed fun p : Pipeline σ => Q p.engine p.settings where
  toKept := Kept.of_onlyLoads fun p q h hp => by
    rw [h.engine, h.settings]
    exact hp
  setCache _ _ hp := hp
  setMode _ _ hp := hp

namespace Framed

variable {S T : Pipeline σ → Prop}

theorem and (hS : Framed S) (hT : Framed T) : Framed fun p => S p ∧ T p where
  toKept := hS.toKept.and hT.toKept
  setCache cache p hp := ⟨hS.setCache cache p hp.1, hT.setCache cache p hp.2⟩
  setMode mode p hp := ⟨hS.setMode mode p hp.1, hT.setMode mode p hp.2⟩

theorem afterGet (hS : Framed S) (hp : S p) (code language theme : String) (now : Nat) :
    S (p.afterGet code language theme now) :=
  hS.setCache _ p hp

/-- A block keeps what is framed. -/
theorem highlighted (hS : Framed S) (hp : S p) (code language theme : String) (now : Nat) :
    S (highlighted code language theme now p).2 := by
  rcases highlighted_cases code language theme now p with
    ⟨-, heq⟩ | ⟨-, d, -, heq⟩ | ⟨-, -, heq⟩
  · rw [heq]
    exact hS.renderSomehow code language theme hp
  · rw [heq]
    exact hS.afterGet hp code language theme now
  · have hafter := hS.afterGet hp code language theme now
    rw [heq]
    exact hS.setCache _ _ (hS.renderSomehow code language theme hafter)

end Framed

/-- `q` has the engine, the settings and the mode of `p`, and its cache lives
as long. -/
structure SameFrame (p q : Pipeline σ) : Prop where
  engine : q.engine = p.engine
  settings : q.settings = p.settings
  lifetime : q.cache.lifetime = p.cache.lifetime
  mode : q.mode = p.mode

theorem SameFrame.trans {q r : Pipeline σ} (h : SameFrame p q) (h' : SameFrame q r) :
    SameFrame p r :=
  ⟨h'.engine.trans h.engine, h'.settings.trans h.settings, h'.lifetime.trans h.lifetime,
    h'.mode.trans h.mode⟩

theorem OnlyLoads.sameFrame {q : Pipeline σ} (h : OnlyLoads p q) : SameFrame p q :=
  ⟨h.engine, h.settings, by rw [h.cache], h.mode⟩

/-- **The frame of a block.** -/
theorem highlighted_frame (code language theme : String) (now : Nat) (p : Pipeline σ) :
    SameFrame p (highlighted code language theme now p).2 := by
  have hget := Cache.within_get p.cache (CacheKey.of code language theme) code now
  have hafter : SameFrame p (p.afterGet code language theme now) :=
    ⟨rfl, rfl, hget.lifetime, rfl⟩
  rcases highlighted_cases code language theme now p with
    ⟨-, heq⟩ | ⟨-, d, -, heq⟩ | ⟨-, -, heq⟩
  · rw [heq]
    exact ((kept_onlyLoads _).renderSomehow code language theme (OnlyLoads.refl p)).sameFrame
  · rw [heq]
    exact hafter
  · have hrendered := ((kept_onlyLoads _).renderSomehow code language theme
      (OnlyLoads.refl (p.afterGet code language theme now))).sameFrame
    rw [heq]
    refine hafter.trans ⟨hrendered.engine, hrendered.settings, ?_, hrendered.mode⟩
    exact (Cache.lifetime_put _ _ _ _).trans hrendered.lifetime

/-- Loading ahead leaves the cache alone. -/
theorem preload_onlyLoads (p : Pipeline σ) : OnlyLoads p (preload p).2 :=
  (kept_onlyLoads p).preload (OnlyLoads.refl p)

/-- What is framed lasts. -/
theorem Framed.lasting {S : Pipeline σ → Prop} (hS : Framed S) :
    Session.Lasting fun x : Session σ => S x.pipeline where
  preload _ hx := hS.preload hx
  highlighted code language theme x hx := hS.highlighted hx code language theme x.now
  setMode mode x hx := hS.setMode mode x.pipeline hx
  clearCache x hx := hS.setCache x.pipeline.cache.clear x.pipeline hx
  wait _ _ hx := hx

/-- **Entries that last.**  If a rendering has a property whenever it is made
in a pipeline of some kind, then all entries of the cache keep having it, and
the pipeline stays of that kind. -/
theorem lasting_entries {S : Pipeline σ → Prop} {M : CacheKey → CacheEntry → Prop}
    (hS : Framed S)
    (hmade : ∀ code language theme now p, S p →
      let r := (renderSomehow code language theme p).1
      M (.of code language theme) (.of r.1 code (r.2 != .rendered) now)) :
    Session.Lasting fun x : Session σ =>
      S x.pipeline ∧ ∀ k e, x.pipeline.cache.find? k = some e → M k e where
  preload x hx := by
    refine ⟨hS.lasting.preload x hx.1, ?_⟩
    dsimp only
    rw [(preload_onlyLoads x.pipeline).cache]
    exact hx.2
  highlighted code language theme x hx := by
    refine ⟨hS.lasting.highlighted code language theme x hx.1, ?_⟩
    intro k e he
    rcases highlighted_entry he with hold | ⟨rfl, rfl⟩
    · exact hx.2 k e hold
    · exact hmade code language theme x.now _ (hS.afterGet hx.1 code language theme x.now)
  setMode mode x hx := ⟨hS.lasting.setMode mode x hx.1, hx.2⟩
  clearCache x hx := by
    refine ⟨hS.lasting.clearCache x hx.1, ?_⟩
    intro k e he
    exact hx.2 k e ((Cache.within_clear x.pipeline.cache).find? k e he)
  wait _ _ hx := hx

end Pipeline

end CodeFence
