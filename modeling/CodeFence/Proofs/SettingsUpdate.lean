import CodeFence.Proofs.CacheTransparency

/-!
# New settings

New settings drop the cache if they switch it off, if they change how long
entries live, or if they look for themes elsewhere.  Otherwise the entries
stay, and with them what was rendered in the old fallback language.

* `stocked_live` — through any history, every entry is what the engine makes
  of its source with some fallback language;
* `Since` — what a run adds to the cache after a moment is made with the
  fallback language of that moment;
* `upToDate_update_iff` — after new settings the blocks are those of a fresh
  pipeline exactly if every fallback rendering that was kept and is still alive
  looks as the new chain of fallbacks would render it.
-/

namespace CodeFence

open Markup

variable {σ : Type}

namespace Pipeline

/-- New settings under which nothing that is cached may be used. -/
def DropsCache (p : Pipeline σ) (s : Settings) : Prop :=
  s.cacheEnabled = false ∨ s.cacheExpirationDays ≠ p.settings.cacheExpirationDays ∨
    s.customThemePath ≠ p.settings.customThemePath

theorem not_dropsCache_iff {p : Pipeline σ} {s : Settings} :
    ¬ p.DropsCache s ↔
      s.cacheEnabled = true ∧ s.cacheExpirationDays = p.settings.cacheExpirationDays ∧
        s.customThemePath = p.settings.customThemePath := by
  simp [DropsCache, not_or]

theorem updateSettings_cache_of_drops {p : Pipeline σ} {s : Settings} (h : p.DropsCache s) :
    (p.updateSettings s).cache = freshCache s := by
  unfold updateSettings
  dsimp only
  rw [if_pos]
  rcases h with h | h | h <;> simp [h]

theorem updateSettings_cache_of_keeps {p : Pipeline σ} {s : Settings} (h : ¬ p.DropsCache s) :
    (p.updateSettings s).cache = p.cache.setCapacity s.maxCacheSize := by
  obtain ⟨henabled, hdays, hpath⟩ := not_dropsCache_iff.mp h
  unfold updateSettings
  dsimp only
  rw [if_neg]
  simp [henabled, hdays, hpath]

variable {E : StableEngine σ} {F : String → Prop} {p : Pipeline σ} {s : Settings}

/-- The engine takes over the new place of themes, and the languages that it
speaks stay loaded. -/
theorem Settled.updateSettings {w : E.Place} (hp : Settled E w p) (s : Settings) :
    Settled E (E.placeOf s.customThemePath) (p.updateSettings s) := by
  refine ⟨hp.engine, ?_, ?_⟩
  · change E.Serves _ (p.engine.applySettings s p.state)
    rw [hp.engine]
    exact E.applySettings_serves s hp.serves
  · intro l hl
    obtain ⟨hloads, hspeaks⟩ := hp.spoken l hl
    refine ⟨hloads, ?_⟩
    change E.Speaks (p.engine.applySettings s p.state) l
    rw [hp.engine]
    exact E.applySettings_keeps s hspeaks

/-- Entries that are kept were made in the place that is still the right one. -/
theorem Stocked.updateSettings (hp : Stocked E (E.placeOf p.settings.customThemePath) F p)
    (hF : F s.fallbackLanguage) :
    Stocked E (E.placeOf s.customThemePath) F (p.updateSettings s) := by
  refine ⟨hp.toSettled.updateSettings s, hF, ?_⟩
  intro k e he
  by_cases hdrops : p.DropsCache s
  · rw [updateSettings_cache_of_drops hdrops] at he
    cases he
  · obtain ⟨-, -, hpath⟩ := not_dropsCache_iff.mp hdrops
    rw [updateSettings_cache_of_keeps hdrops] at he
    rw [hpath]
    exact hp.entries k e ((Cache.within_setCapacity _ _).find? k e he)

/-- A dropped cache holds nothing of the past. -/
theorem Settled.stocked_of_drops {w : E.Place} (hp : Settled E w p) (h : p.DropsCache s) :
    Stocked E (E.placeOf s.customThemePath) (· = s.fallbackLanguage) (p.updateSettings s) := by
  refine ⟨hp.updateSettings s, rfl, ?_⟩
  intro k e he
  rw [updateSettings_cache_of_drops h] at he
  cases he

/-- A cache that is not in use is empty after new settings. -/
theorem cacheEnabled_of_entry {k : CacheKey} {e : CacheEntry}
    (h : (p.updateSettings s).cache.find? k = some e) : s.cacheEnabled = true := by
  cases henabled : s.cacheEnabled with
  | true => rfl
  | false =>
      rw [updateSettings_cache_of_drops (Or.inl henabled)] at h
      cases h

/-- No pass reads the theme that a configuration asks for. -/
theorem present_theme (s : Settings) (code language : String) (config : BlockConfig)
    (theme : Option String) (d : Document) :
    present s code language { config with theme } d = present s code language config d := by
  have happly : ∀ pass : Pass,
      pass.apply ⟨{ config with theme }, code, canonicalLanguage language⟩ =
        pass.apply ⟨config, code, canonicalLanguage language⟩ := by
    intro pass
    cases pass <;> rfl
  have hselect : Pass.select { config with theme } s = Pass.select config s := by
    refine congrArg (List.filter · Pass.all) (funext fun pass => ?_)
    cases pass <;> rfl
  unfold present Pass.applyAll
  rw [hselect]
  simp only [happly]

end Pipeline

namespace Session

open Pipeline

variable {E : StableEngine σ} {F : String → Prop}

/-- **Invariant.**  Through any history the cache is stocked for the place that
the settings of the moment name. -/
theorem stocked_live {x : Session σ} (events : List Event)
    (hx : Stocked E (E.placeOf x.pipeline.settings.customThemePath) F x.pipeline)
    (hF : ∀ s, Event.update s ∈ events → F s.fallbackLanguage) :
    Stocked E (E.placeOf (x.live events).pipeline.settings.customThemePath) F
      (x.live events).pipeline := by
  induction events generalizing x with
  | nil => exact hx
  | cons event rest ih =>
      have hrest : ∀ s, Event.update s ∈ rest → F s.fallbackLanguage := fun s hs =>
        hF s (List.mem_cons_of_mem _ hs)
      cases event with
      | operation o =>
          have hsettings := (lasting_settings x.pipeline.settings).step rfl o
          have hstep := (lasting_stocked E _ F).step hx o
          rw [← hsettings] at hstep
          exact ih hstep hrest
      | update s => exact ih (hx.updateSettings (hF s List.mem_cons_self)) hrest

/-- `z` comes after `y` under the same settings: an entry of `z` is one of `y`,
or it was made since. -/
structure Since (E : StableEngine σ) (w : E.Place) (y z : Session σ) : Prop where
  settled : Settled E w z.pipeline
  settings : z.pipeline.settings = y.pipeline.settings
  lifetime : z.pipeline.cache.lifetime = y.pipeline.cache.lifetime
  now : y.now ≤ z.now
  entries : ∀ k e, z.pipeline.cache.find? k = some e →
    y.pipeline.cache.find? k = some e ∨ Made E w y.pipeline.settings.fallbackLanguage k e

variable {w : E.Place} {y : Session σ}

theorem Since.refl (hy : Settled E w y.pipeline) : Since E w y y :=
  ⟨hy, rfl, rfl, Nat.le_refl _, fun _ _ h => Or.inl h⟩

theorem since_iff {z : Session σ} :
    Since E w y z ↔
      ((Settled E w z.pipeline ∧ z.pipeline.settings = y.pipeline.settings) ∧
        ∀ k e, z.pipeline.cache.find? k = some e → y.pipeline.cache.find? k = some e ∨
          Made E w y.pipeline.settings.fallbackLanguage k e) ∧
      z.pipeline.cache.lifetime = y.pipeline.cache.lifetime ∧ y.now ≤ z.now := by
  constructor
  · intro hz
    exact ⟨⟨⟨hz.settled, hz.settings⟩, hz.entries⟩, hz.lifetime, hz.now⟩
  · rintro ⟨⟨⟨hsettled, hsettings⟩, hentries⟩, hlifetime, hnow⟩
    exact ⟨hsettled, hsettings, hlifetime, hnow, hentries⟩

/-- No operation changes how long entries live. -/
theorem lasting_lifetime (lifetime : Nat) :
    Lasting fun x : Session σ => x.pipeline.cache.lifetime = lifetime where
  preload x hx := (congrArg Cache.lifetime (preload_onlyLoads x.pipeline).cache).trans hx
  highlighted code language theme x hx :=
    (highlighted_frame code language theme x.now x.pipeline).lifetime.trans hx
  setMode _ _ hx := hx
  clearCache _ hx := hx
  wait _ _ hx := hx

/-- Time does not run back. -/
theorem lasting_now (moment : Nat) : Lasting fun x : Session σ => moment ≤ x.now where
  preload _ hx := hx
  highlighted _ _ _ _ hx := hx
  setMode _ _ hx := hx
  clearCache _ hx := hx
  wait _ _ hx := Nat.le_add_right_of_le hx

/-- **Invariant.**  What is made since a moment is made with the settings of
that moment. -/
theorem lasting_since (E : StableEngine σ) (w : E.Place) (y : Session σ) :
    Lasting (Since E w y) := by
  have hframed : Framed fun p : Pipeline σ =>
      Settled E w p ∧ p.settings = y.pipeline.settings :=
    (framed_settled E w).and (framed_of_frame fun _ s => s = y.pipeline.settings)
  have heq : Since E w y = fun z => _ := funext fun _ => propext since_iff
  rw [heq]
  refine (lasting_entries hframed ?_).and ((lasting_lifetime _).and (lasting_now y.now))
  intro code language theme now p hp r
  have hmade := hp.1.made code language theme now
  rw [hp.2] at hmade
  exact Or.inr hmade

/-- **What is shown later.**  As long as the settings stay, a document is found
in an entry that was there and alive before, or it is what would be made now. -/
theorem Since.highlighted_fst {z : Session σ} (hz : Since E w y z)
    (code language theme : String) :
    (∃ e, y.pipeline.settings.cacheEnabled = true ∧
        y.pipeline.cache.find? (.of code language theme) = some e ∧
        y.pipeline.cache.isExpired y.now e = false ∧ e.source = code ∧
        (Pipeline.highlighted code language theme z.now z.pipeline).1.1 = e.document) ∨
      (Pipeline.highlighted code language theme z.now z.pipeline).1.1 =
        (E.produce w y.pipeline.settings.fallbackLanguage code language theme).1 := by
  cases henabled : y.pipeline.settings.cacheEnabled with
  | false =>
      have hoff : z.pipeline.settings.cacheEnabled = false := by rw [hz.settings, henabled]
      rw [hz.settled.highlighted_eq_produce fun h => by simp [hoff] at h, hz.settings]
      exact Or.inr rfl
  | true =>
      rcases hz.settled.highlighted_fst code language theme z.now with
        ⟨e, hentry, halive, rfl, heq⟩ | heq
      · rcases hz.entries _ e hentry with hold | hmade
        · have hsame : z.pipeline.cache.isExpired z.now e =
              y.pipeline.cache.isExpired z.now e := by
            unfold Cache.isExpired Cache.lifetimeOf
            rw [hz.lifetime]
          refine Or.inl ⟨e, rfl, hold, ?_, rfl, heq⟩
          cases hexpired : y.pipeline.cache.isExpired y.now e with
          | false => rfl
          | true =>
              rw [hsame, Cache.isExpired_mono hz.now hexpired] at halive
              cases halive
        · exact Or.inr (heq.trans hmade.document)
      · rw [heq, hz.settings]
        exact Or.inr rfl

/-- Whatever is done from now on, every block looks as a fresh pipeline with
the given settings shows it in the same display mode. -/
def UpToDate (engine : Engine σ) (other : σ) (s : Settings) (x : Session σ) : Prop :=
  ∀ operations code language config asked later,
    let z := x.run operations
    z.render code language config asked =
      (Pipeline.render code language config asked later
        (fresh engine other s z.pipeline.mode)).1

/-- A rendering that is kept looks as it would if it were made now. -/
def Current (E : StableEngine σ) (w : E.Place) (s : Settings) (k : CacheKey) (e : CacheEntry) :
    Prop :=
  ∀ config, present s e.source k.language config e.document =
    present s e.source k.language config
      (E.produce w s.fallbackLanguage e.source k.language k.theme).1

theorem current_of_made {s : Settings} {k : CacheKey} {e : CacheEntry}
    (h : Made E w s.fallbackLanguage k e) : Current E w s k e := by
  intro config
  rw [h.document]

/-- A rendering in the language that was asked for does not depend on the
fallback language. -/
theorem current_of_not_fallback {f : String} {s : Settings} {k : CacheKey} {e : CacheEntry}
    (h : Made E w f k e) (hrendered : e.isFallback = false) : Current E w s k e := by
  intro config
  have houtcome : (E.produce w f e.source k.language k.theme).2 = .rendered := by
    have hkind := h.isFallback
    rw [hrendered] at hkind
    simpa using hkind.symm
  rw [h.document, E.produce_of_rendered houtcome s.fallbackLanguage]

/-- If all entries that are alive are current, so is every later block. -/
theorem upToDate_of_current {other : σ} (hother : E.Serves w other)
    (hy : Settled E w y.pipeline)
    (hcurrent : ∀ k e, y.pipeline.cache.find? k = some e →
      y.pipeline.cache.isExpired y.now e = false → Current E w y.pipeline.settings k e) :
    UpToDate E.toEngine other y.pipeline.settings y := by
  intro operations code language config asked later z
  have hz : Since E w y z := (lasting_since E w y).run (Since.refl hy) operations
  have htheme := resolveTheme_fresh E.toEngine other z.pipeline config asked
  rw [hz.settings] at htheme
  rw [Session.render, render_fst, render_fresh hother, htheme, hz.settings]
  generalize z.pipeline.resolveTheme config asked = theme
  rcases hz.highlighted_fst code language theme with ⟨e, -, hentry, halive, rfl, heq⟩ | heq
  · rw [heq]
    exact hcurrent _ e hentry halive config
  · rw [heq]

/-- An entry that is alive answers the next call for its source. -/
theorem current_of_upToDate {other : σ} (hother : E.Serves w other)
    (henabled : y.pipeline.settings.cacheEnabled = true)
    (hfresh : UpToDate E.toEngine other y.pipeline.settings y) {k : CacheKey} {e : CacheEntry}
    (hentry : y.pipeline.cache.find? k = some e)
    (halive : y.pipeline.cache.isExpired y.now e = false)
    (hkey : k = .of e.source k.language k.theme) (hhash : e.hash = k.hash) :
    Current E w y.pipeline.settings k e := by
  intro config
  have hrender : y.render e.source k.language { config with theme := some k.theme } none = _ :=
    hfresh [] e.source k.language { config with theme := some k.theme } none 0
  have hget : (y.pipeline.cache.get (.of e.source k.language k.theme) e.source y.now).1 =
      some e.document := by
    rw [← hkey]
    exact Cache.get_eq_some_iff.mpr ⟨e, hentry, halive, hhash, rfl, rfl⟩
  rw [Session.render, render_fst, render_fresh hother] at hrender
  change present y.pipeline.settings e.source k.language _
    (Pipeline.highlighted e.source k.language k.theme y.now y.pipeline).1.1 =
      present y.pipeline.settings e.source k.language _
        (E.produce w _ e.source k.language k.theme).1 at hrender
  rw [highlighted_of_hit henabled hget, present_theme, present_theme] at hrender
  exact hrender

/-- **New settings.**  Over a stable engine, after any history and new settings
every block is the one of a fresh pipeline with these settings, exactly if each
fallback rendering that was kept and is still alive looks as the new chain of
fallbacks would render it.  It is so if the new settings drop the cache, and if
the fallback language has never changed. -/
theorem upToDate_update_iff (E : StableEngine σ) {s₀ s : Settings} {state other : σ}
    (hstate : E.Serves (E.placeOf s₀.customThemePath) state)
    (hother : E.Serves (E.placeOf s.customThemePath) other) (events : List Event) :
    let x := (start E.toEngine state s₀).live events
    let y := x.update s
    (UpToDate E.toEngine other s y ↔
      ∀ k e, y.pipeline.cache.find? k = some e →
        y.pipeline.cache.isExpired y.now e = false → e.isFallback = true →
          Current E (E.placeOf s.customThemePath) s k e) ∧
    (x.pipeline.DropsCache s ∨
        (s₀.fallbackLanguage = s.fallbackLanguage ∧
          ∀ s', Event.update s' ∈ events → s'.fallbackLanguage = s.fallbackLanguage) →
      UpToDate E.toEngine other s y) := by
  intro x y
  have hstart : ∀ F : String → Prop, F s₀.fallbackLanguage →
      Stocked E (E.placeOf s₀.customThemePath) F (start E.toEngine state s₀).pipeline :=
    fun F hF => stocked_fresh hstate s₀ none hF
  have hx : Stocked E (E.placeOf x.pipeline.settings.customThemePath) (fun _ => True)
      x.pipeline :=
    stocked_live events (hstart _ trivial) (fun _ _ => trivial)
  have hy : Stocked E (E.placeOf s.customThemePath) (fun _ => True) y.pipeline :=
    hx.updateSettings trivial
  -- Entries made under the fallback language that is set now are current.
  have hmade : ∀ {F : String → Prop}, Stocked E (E.placeOf s.customThemePath) F y.pipeline →
      (∀ f, F f → f = s.fallbackLanguage) → UpToDate E.toEngine other s y := by
    intro F hstocked hF
    refine upToDate_of_current hother hstocked.toSettled fun k e he _ => ?_
    obtain ⟨f, hf, hmade⟩ := hstocked.entries k e he
    obtain rfl := hF f hf
    exact current_of_made hmade
  refine ⟨⟨?_, ?_⟩, ?_⟩
  · intro hfresh k e hentry halive _
    obtain ⟨f, -, hmade⟩ := hy.entries k e hentry
    have hkept : (x.pipeline.updateSettings s).cache.find? k = some e := hentry
    have henabled : s.cacheEnabled = true := cacheEnabled_of_entry hkept
    exact current_of_upToDate hother henabled hfresh hentry halive hmade.key hmade.hash
  · intro hcurrent
    refine upToDate_of_current hother hy.toSettled fun k e hentry halive => ?_
    obtain ⟨f, -, hmade⟩ := hy.entries k e hentry
    cases hkind : e.isFallback with
    | true => exact hcurrent k e hentry halive hkind
    | false => exact current_of_not_fallback hmade hkind
  · rintro (hdrops | ⟨hfirst, hevents⟩)
    · exact hmade (hx.toSettled.stocked_of_drops hdrops) fun f hf => hf
    · have hlive : Stocked E (E.placeOf x.pipeline.settings.customThemePath)
          (· = s.fallbackLanguage) x.pipeline :=
        stocked_live events (hstart _ hfirst) hevents
      exact hmade (hlive.updateSettings rfl) fun f hf => hf

/-- The bundled engine without any files, and a fallback language that it does
not know until the settings name another one. -/
theorem upToDate_update_iff_cobol :
    let E := Bundled.stable Syntax.analysis {}
    let s₀ : Settings := { fallbackLanguage := "cobol", transformers := false }
    let s : Settings := { fallbackLanguage := "text", transformers := false }
    let x := (start E.toEngine (Bundled.ofSettings {} s₀) s₀).live
      [.operation (.render "x" "cobol" { language := "cobol" } none)]
    let y := x.update s
    E.Serves (E.placeOf s₀.customThemePath) (Bundled.ofSettings {} s₀) ∧
      E.Serves (E.placeOf s.customThemePath) (Bundled.ofSettings {} s) ∧
      (UpToDate E.toEngine (Bundled.ofSettings {} s) s y ↔
        ∀ k e, y.pipeline.cache.find? k = some e →
          y.pipeline.cache.isExpired y.now e = false → e.isFallback = true →
            Current E (E.placeOf s.customThemePath) s k e) ∧
      (x.pipeline.DropsCache s ∨
          (s₀.fallbackLanguage = s.fallbackLanguage ∧
            ∀ s', Event.update s' ∈
                [Event.operation (.render "x" "cobol" { language := "cobol" } none)] →
              s'.fallbackLanguage = s.fallbackLanguage) →
        UpToDate E.toEngine (Bundled.ofSettings {} s) s y) := by
  intro E s₀ s x y
  have hbefore := Bundled.serves_ofSettings {} s₀
  have hafter := Bundled.serves_ofSettings {} s
  exact ⟨hbefore, hafter, upToDate_update_iff E hbefore hafter _⟩

/-- **A stale block.**  What was shown as plain text under the unknown fallback
language is still shown so when the settings name a known one. -/
theorem not_upToDate_of_new_fallback :
    let s₀ : Settings := { fallbackLanguage := "cobol", transformers := false }
    let s : Settings := { fallbackLanguage := "text", transformers := false }
    ¬ UpToDate (Bundled.engine {}) (Bundled.ofSettings {} s) s
      (((start (Bundled.engine {}) (Bundled.ofSettings {} s₀) s₀).live
        [.operation (.render "x" "cobol" { language := "cobol" } none)]).update s) := by
  intro s₀ s hfresh
  have hrender := hfresh [] "x" "cobol" { language := "cobol" } none 0
  have htheme := congrArg (fun d => (d.root.attr? "data-theme").isSome) hrender
  revert htheme
  decide +kernel

end Session

end CodeFence
