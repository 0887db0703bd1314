import CodeFence.Proofs.EngineStability
import CodeFence.Proofs.PipelineSession

/-!
# The cache does not show

Over a stable engine, a block that a used pipeline answers from its cache is
the block that a fresh pipeline without a cache would render.  The invariant
ties every cached document to what the chain of fallbacks makes of its source.
It says nothing about which entries are there, so evictions, expired entries
and two sources with one hash need no argument of their own.

* `Made` — an entry is what a stable engine makes of its source with some
  fallback language;
* `Stocked` — every entry is made, with a fallback language out of some set;
  `lasting_stocked` keeps this through all operations;
* `render_run_eq_render_fresh` — no operation changes what a block looks like,
  except that it may change the display mode.
-/

namespace CodeFence

open Markup

variable {σ : Type}

/-- An entry under a key holds what a stable engine makes of its source. -/
structure Made (E : StableEngine σ) (w : E.Place) (fallback : String) (k : CacheKey)
    (e : CacheEntry) : Prop where
  key : k = .of e.source k.language k.theme
  hash : e.hash = k.hash
  document : e.document = (E.produce w fallback e.source k.language k.theme).1
  isFallback :
    e.isFallback = ((E.produce w fallback e.source k.language k.theme).2 != .rendered)

/-- What is kept of a rendering is made. -/
theorem made_of (E : StableEngine σ) (w : E.Place) (fallback code language theme : String)
    (now : Nat) :
    let r := E.produce w fallback code language theme
    Made E w fallback (.of code language theme) (.of r.1 code (r.2 != .rendered) now) :=
  ⟨rfl, rfl, rfl, rfl⟩

namespace Pipeline

/-- A settled pipeline in whose cache every entry was made with a fallback
language out of `F`, as the next one will be. -/
structure Stocked (E : StableEngine σ) (w : E.Place) (F : String → Prop) (p : Pipeline σ) :
    Prop extends Settled E w p where
  fallback : F p.settings.fallbackLanguage
  entries : ∀ k e, p.cache.find? k = some e → ∃ f, F f ∧ Made E w f k e

variable {E : StableEngine σ} {w : E.Place} {F : String → Prop} {p : Pipeline σ}

/-- Nothing was made yet. -/
theorem stocked_fresh {state : σ} (hstate : E.Serves w state) (s : Settings)
    (mode : Option DisplayMode) (hF : F s.fallbackLanguage) :
    Stocked E w F (fresh E.toEngine state s mode) := by
  refine ⟨⟨rfl, hstate, ?_⟩, hF, ?_⟩
  · intro l hl
    cases hl
  · intro k e he
    cases he

theorem stocked_iff :
    Stocked E w F p ↔ (Settled E w p ∧ F p.settings.fallbackLanguage) ∧
      ∀ k e, p.cache.find? k = some e → ∃ f, F f ∧ Made E w f k e := by
  constructor
  · intro hp
    exact ⟨⟨hp.toSettled, hp.fallback⟩, hp.entries⟩
  · rintro ⟨⟨hsettled, hfallback⟩, hentries⟩
    exact ⟨hsettled, hfallback, hentries⟩

/-- A settled pipeline is settled with any cache and in any mode. -/
theorem framed_settled (E : StableEngine σ) (w : E.Place) : Framed (Settled E w) where
  toKept := kept_settled E w
  setCache _ _ hp := ⟨hp.engine, hp.serves, hp.spoken⟩
  setMode _ _ hp := ⟨hp.engine, hp.serves, hp.spoken⟩

/-- **Step lemma.**  What a settled pipeline keeps of a rendering is made with
its fallback language. -/
theorem Settled.made (hp : Settled E w p) (code language theme : String) (now : Nat) :
    let r := (renderSomehow code language theme p).1
    Made E w p.settings.fallbackLanguage (.of code language theme)
      (.of r.1 code (r.2 != .rendered) now) := by
  dsimp only
  rw [hp.renderSomehow_eq_produce]
  exact made_of E w _ code language theme now

/-- **Invariant.**  Every operation leaves a stocked pipeline stocked. -/
theorem lasting_stocked (E : StableEngine σ) (w : E.Place) (F : String → Prop) :
    Session.Lasting fun x : Session σ => Stocked E w F x.pipeline := by
  have hframed : Framed fun p : Pipeline σ => Settled E w p ∧ F p.settings.fallbackLanguage :=
    (framed_settled E w).and (framed_of_frame fun _ s => F s.fallbackLanguage)
  simp only [stocked_iff]
  refine lasting_entries hframed ?_
  intro code language theme now p hp
  exact ⟨_, hp.2, hp.1.made code language theme now⟩

/-- Unless a document is found in the cache, it is what the chain of fallbacks
makes of the source now. -/
theorem Settled.highlighted_eq_produce (hp : Settled E w p) {code language theme : String}
    {now : Nat}
    (hmiss : p.settings.cacheEnabled = true →
      (p.cache.get (.of code language theme) code now).1 = none) :
    (Pipeline.highlighted code language theme now p).1 =
      E.produce w p.settings.fallbackLanguage code language theme := by
  rcases highlighted_cases code language theme now p with
    ⟨-, heq⟩ | ⟨henabled, d, hfound, -⟩ | ⟨-, -, heq⟩
  · rw [heq]
    exact hp.renderSomehow_eq_produce code language theme
  · rw [hmiss henabled] at hfound
    cases hfound
  · have hafter := (framed_settled E w).afterGet hp code language theme now
    rw [heq]
    exact hafter.renderSomehow_eq_produce code language theme

/-- **Two ways to a document.**  It is found in an entry that is still alive,
or it is made. -/
theorem Settled.highlighted_fst (hp : Settled E w p) (code language theme : String) (now : Nat) :
    (∃ e, p.cache.find? (.of code language theme) = some e ∧
        p.cache.isExpired now e = false ∧ e.source = code ∧
        (Pipeline.highlighted code language theme now p).1.1 = e.document) ∨
      (Pipeline.highlighted code language theme now p).1 =
        E.produce w p.settings.fallbackLanguage code language theme := by
  rcases highlighted_cases code language theme now p with
    ⟨hdisabled, -⟩ | ⟨-, d, hfound, heq⟩ | ⟨-, hmiss, -⟩
  · exact Or.inr (hp.highlighted_eq_produce fun h => by simp [hdisabled] at h)
  · obtain ⟨e, hentry, halive, -, hsource, rfl⟩ := Cache.get_eq_some_iff.mp hfound
    exact Or.inl ⟨e, hentry, halive, hsource, by rw [heq]⟩
  · exact Or.inr (hp.highlighted_eq_produce fun _ => hmiss)

/-- If all entries were made with the fallback language of now, it does not
matter where a document comes from. -/
theorem Stocked.highlighted_document {f : String} (hp : Stocked E w (· = f) p)
    (code language theme : String) (now : Nat) :
    (Pipeline.highlighted code language theme now p).1.1 =
      (E.produce w f code language theme).1 := by
  rcases hp.highlighted_fst code language theme now with ⟨e, hentry, -, hsource, heq⟩ | heq
  · obtain ⟨f', rfl, hmade⟩ := hp.entries _ _ hentry
    rw [heq, hmade.document, hsource]
    rfl
  · rw [heq, hp.fallback]

/-- The block that a document becomes by the passes that are called for. -/
def present (s : Settings) (code language : String) (config : BlockConfig) (d : Document) :
    Document :=
  Pass.applyAll (Pass.select config s) ⟨config, code, canonicalLanguage language⟩ d

theorem render_fst (code language : String) (config : BlockConfig) (asked : Option String)
    (now : Nat) (p : Pipeline σ) :
    (render code language config asked now p).1 =
      present p.settings code language config
        (Pipeline.highlighted code language (p.resolveTheme config asked) now p).1.1 := by
  have hframe := highlighted_frame code language (p.resolveTheme config asked) now p
  rw [render_run, present]
  dsimp only
  rw [hframe.settings]

/-- **What a fresh pipeline shows.** -/
theorem render_fresh {state : σ} (hstate : E.Serves w state) (s : Settings)
    (mode : Option DisplayMode) (code language : String) (config : BlockConfig)
    (asked : Option String) (now : Nat) :
    (render code language config asked now (fresh E.toEngine state s mode)).1 =
      present s code language config
        (E.produce w s.fallbackLanguage code language
          ((fresh E.toEngine state s mode).resolveTheme config asked)).1 := by
  have hstocked : Stocked E w (· = s.fallbackLanguage) (fresh E.toEngine state s mode) :=
    stocked_fresh hstate s mode rfl
  rw [render_fst, hstocked.highlighted_document]
  rfl

/-- The theme of a block follows from the settings and the display mode. -/
theorem resolveTheme_fresh (engine : Engine σ) (state : σ) (p : Pipeline σ)
    (config : BlockConfig) (asked : Option String) :
    (fresh engine state p.settings p.mode).resolveTheme config asked =
      p.resolveTheme config asked := rfl

end Pipeline

namespace Session

open Pipeline

/-- Operations do not change the settings. -/
theorem lasting_settings (s : Settings) :
    Lasting fun x : Session σ => x.pipeline.settings = s :=
  (framed_of_frame fun _ settings => settings = s).lasting

/-- In a session whose settings never change, every entry is made with their
fallback language. -/
theorem stocked_run {E : StableEngine σ} {w : E.Place} {state : σ} (hstate : E.Serves w state)
    (s : Settings) (operations : List Operation) :
    Stocked E w (· = s.fallbackLanguage)
      ((start E.toEngine state s).run operations).pipeline := by
  have hstart : Stocked E w (· = s.fallbackLanguage) (start E.toEngine state s).pipeline :=
    stocked_fresh hstate s none rfl
  exact (lasting_stocked E w _).run hstart operations

/-- **Cache transparency.**  Over a stable engine, whatever a pipeline has
rendered, loaded, dropped or let expire: it renders a block as a fresh pipeline
without a cache does, in the same display mode and at any time. -/
theorem render_run_eq_render_fresh (E : StableEngine σ) {w : E.Place} {state other : σ}
    (hstate : E.Serves w state) (hother : E.Serves w other) (s : Settings)
    (operations : List Operation) (code language : String) (config : BlockConfig)
    (asked : Option String) (later : Nat) :
    let x := (start E.toEngine state s).run operations
    x.render code language config asked =
      (Pipeline.render code language config asked later
        (fresh E.toEngine other { s with cacheEnabled := false } x.pipeline.mode)).1 := by
  intro x
  have hsettings : x.pipeline.settings = s := (lasting_settings s).run rfl operations
  have hused : Stocked E w (· = s.fallbackLanguage) x.pipeline := stocked_run hstate s operations
  rw [Session.render, render_fst, hused.highlighted_document, render_fresh hother, hsettings]
  have htheme := resolveTheme_fresh E.toEngine other x.pipeline config asked
  rw [hsettings] at htheme
  rw [← htheme]
  rfl

/-- A cache with room for one block, in which a fallback rendering has been
kept, dropped for another block, made again and outlived by the time. -/
theorem render_run_eq_render_fresh_cobol :
    let E := Script.stable { unusable := ["python"] }
    let s : Settings := { maxCacheSize := 1 }
    let x := (start E.toEngine [] s).run
      [.preload, .render "move a to b" "cobol" { language := "cobol" } none,
        .renderInline "print(1)" "python", .setMode (some .light),
        .render "move a to b" "cobol" { language := "cobol" } (some "dark-plus"),
        .wait fallbackLifetime]
    E.Serves () [] ∧
      x.render "move a to b" "cobol" { language := "cobol" } (some "dark-plus") =
        (Pipeline.render "move a to b" "cobol" { language := "cobol" } (some "dark-plus") 0
          (fresh E.toEngine [] { s with cacheEnabled := false } x.pipeline.mode)).1 := by
  intro E s x
  have hserves : E.Serves () [] := by
    intro id hid
    cases hid
  exact ⟨hserves, render_run_eq_render_fresh E hserves hserves s _ "move a to b" "cobol"
    { language := "cobol" } (some "dark-plus") 0⟩

end Session

end CodeFence
