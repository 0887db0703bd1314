import CodeFence.Proofs.PageRefresh
import CodeFence.Proofs.SettingsUpdate

/-!
# Pages in a session

A page is rendered again while the settings and the display mode stay as they
are.  Over a stable engine it then looks as before, unless a rendering in an
older fallback language was still in the cache: it is shown as long as it is
there, and made anew when it is not.

* `Reaches` — what may happen as long as neither settings nor display mode
  change;
* `Refreshable` — no rendering in the cache differs from what would be made
  now;
* `wrap_eq_of_refreshable` — then a block is always put into the same wrapper;
* `refreshable_of_steady` — it is so if the fallback language has not changed
  since the cache was empty.
-/

namespace CodeFence

open Markup

variable {σ : Type}

namespace Session

open Pipeline

/-- The wrapper that the session would write now. -/
def wrap (x : Session σ) (code : String) (config : BlockConfig) : String :=
  (renderWrapped code config x.now x.pipeline).1

/-- The page that comes out if the session renders its blocks again. -/
def refresh (x : Session σ) (html : String) : String :=
  (Pipeline.refresh html x.now x.pipeline).1

/-- The session after it has rendered the blocks of a page again. -/
def afterRefresh (x : Session σ) (html : String) : Session σ :=
  { x with pipeline := (Pipeline.refresh html x.now x.pipeline).2 }

/-- One session follows another one without new settings or a new mode. -/
def Reaches (x z : Session σ) : Prop :=
  ∃ operations, (∀ mode, Operation.setMode mode ∉ operations) ∧ z = x.run operations

variable {x y z : Session σ}

theorem Reaches.refl (x : Session σ) : Reaches x x :=
  ⟨[], by simp, rfl⟩

theorem Reaches.trans (h : Reaches x y) (h' : Reaches y z) : Reaches x z := by
  obtain ⟨front, hfront, rfl⟩ := h
  obtain ⟨back, hback, rfl⟩ := h'
  refine ⟨front ++ back, ?_, (List.foldl_append ..).symm⟩
  intro mode hmem
  exact (List.mem_append.mp hmem).elim (hfront mode) (hback mode)

theorem reaches_step (x : Session σ) {o : Operation} (ho : ∀ mode, o ≠ .setMode mode) :
    Reaches x (x.step o) :=
  ⟨[o], fun mode hmem => ho mode (List.mem_singleton.mp hmem).symm, rfl⟩

/-- Writing a wrapper is rendering its block. -/
theorem reaches_renderWrapped (x : Session σ) (code : String) (config : BlockConfig) :
    Reaches x { x with pipeline := (renderWrapped code config x.now x.pipeline).2 } :=
  reaches_step x (o := .render code config.language config none) (by simp)

/-- **Rendering a page again** is rendering its blocks one after the other. -/
theorem reaches_afterRefresh (x : Session σ) (html : String) :
    Reaches x (x.afterRefresh html) := by
  obtain ⟨found, last, hpieces, -⟩ := Wrapper.exists_pieces html.toList
  have hrefresh := refresh_eq_fill (σ := σ) hpieces x.now
  have hfilled := mapM_fillSlot (I := fun p => Reaches x { x with pipeline := p })
    (fun code config p hp => hp.trans (reaches_renderWrapped ⟨p, x.now⟩ code config))
    (found.map Slot.ofFound) (Reaches.refl x)
  unfold afterRefresh
  rw [hrefresh]
  exact hfilled.2.1

/-- Without a new mode the mode stays. -/
theorem Reaches.mode (h : Reaches x z) : z.pipeline.mode = x.pipeline.mode := by
  obtain ⟨operations, hmode, rfl⟩ := h
  induction operations generalizing x with
  | nil => rfl
  | cons o rest ih =>
      have hrest := ih (x := x.step o) fun mode hmem => hmode mode (List.mem_cons_of_mem _ hmem)
      refine hrest.trans ?_
      cases o with
      | preload => exact (preload_onlyLoads x.pipeline).mode
      | render code language config asked => exact (highlighted_frame _ _ _ _ x.pipeline).mode
      | renderInline code language => exact (highlighted_frame _ _ _ _ x.pipeline).mode
      | setMode mode => exact absurd List.mem_cons_self (hmode mode)
      | clearCache => rfl
      | wait milliseconds => rfl

theorem Reaches.lasting {P : Session σ → Prop} (h : Reaches x z) (hP : Lasting P) (hx : P x) :
    P z := by
  obtain ⟨operations, -, rfl⟩ := h
  exact hP.run hx operations

/-! ## Renderings that are kept -/

/-- A rendering that is kept is written as it would be if it were made now, in
every block that can be recorded. -/
def Stands (E : StableEngine σ) (w : E.Place) (s : Settings) (k : CacheKey) (e : CacheEntry) :
    Prop :=
  ∀ config : BlockConfig, config.isValid = true → config.InRange → config.language = k.language →
    (present s e.source k.language config e.document).toHtml =
      (present s e.source k.language config
        (E.produce w s.fallbackLanguage e.source k.language k.theme).1).toHtml

theorem Current.stands {E : StableEngine σ} {w : E.Place} {s : Settings} {k : CacheKey}
    {e : CacheEntry} (h : Current E w s k e) : Stands E w s k e := by
  intro config _ _ _
  rw [h config]

/-- Every fallback rendering that may still be shown is written as it would be
if it were made now. -/
def Refreshable (E : StableEngine σ) (y : Session σ) : Prop :=
  y.pipeline.settings.cacheEnabled = true → ∀ k e, y.pipeline.cache.find? k = some e →
    y.pipeline.cache.isExpired y.now e = false → e.isFallback = true →
      Stands E (E.placeOf y.pipeline.settings.customThemePath) y.pipeline.settings k e

/-- The wrapper of a block whose rendering is made now. -/
def madeWrapper (E : StableEngine σ) (y : Session σ) (code : String) (config : BlockConfig) :
    String :=
  Wrapper.render config code (present y.pipeline.settings code config.language config
    (E.produce (E.placeOf y.pipeline.settings.customThemePath)
      y.pipeline.settings.fallbackLanguage code config.language
      (y.pipeline.resolveTheme config none)).1).toHtml

variable {E : StableEngine σ}

theorem wrap_eq (x : Session σ) (code : String) (config : BlockConfig) :
    x.wrap code config = Wrapper.render config code
      (present x.pipeline.settings code config.language config
        (highlighted code config.language (x.pipeline.resolveTheme config none) x.now
          x.pipeline).1.1).toHtml := by
  rw [← render_fst]
  rfl

/-- As long as neither settings nor mode change, a theme is resolved alike. -/
theorem resolveTheme_congr {p q : Pipeline σ} (hsettings : q.settings = p.settings)
    (hmode : q.mode = p.mode) (config : BlockConfig) (asked : Option String) :
    q.resolveTheme config asked = p.resolveTheme config asked := by
  unfold resolveTheme
  rw [hsettings, hmode]

/-- A session over a stable engine as it is reached through some history. -/
def Lived (E : StableEngine σ) (y : Session σ) : Prop :=
  Stocked E (E.placeOf y.pipeline.settings.customThemePath) (fun _ => True) y.pipeline

theorem lived_live {s₀ : Settings} {state : σ}
    (hstate : E.Serves (E.placeOf s₀.customThemePath) state) (events : List Event) :
    Lived E ((start E.toEngine state s₀).live events) :=
  stocked_live events (stocked_fresh hstate s₀ none trivial) fun _ _ => trivial

/-- **One wrapper for a block.**  If nothing in the cache differs from what would
be made now, a block is put into the wrapper of what would be made now, as long
as neither settings nor mode change. -/
theorem wrap_eq_of_refreshable (hy : Lived E y) (hrefreshable : Refreshable E y)
    (hz : Reaches y z) (code : String) {config : BlockConfig} (hvalid : config.isValid = true)
    (hrange : config.InRange) : z.wrap code config = madeWrapper E y code config := by
  have hsince := hz.lasting (lasting_since E _ y) (Since.refl hy.toSettled)
  have htheme := resolveTheme_congr hsince.settings hz.mode config none
  rw [wrap_eq, madeWrapper, htheme, hsince.settings]
  generalize y.pipeline.resolveTheme config none = theme
  rcases hsince.highlighted_fst code config.language theme with
    ⟨e, henabled, hentry, halive, rfl, heq⟩ | heq
  · obtain ⟨f, -, hmade⟩ := hy.entries _ e hentry
    have hstands : Stands E (E.placeOf y.pipeline.settings.customThemePath)
        y.pipeline.settings (.of e.source config.language theme) e := by
      cases hkind : e.isFallback with
      | true => exact hrefreshable henabled _ e hentry halive hkind
      | false => exact (current_of_not_fallback hmade hkind).stands
    rw [heq]
    exact congrArg _ (hstands config hvalid hrange rfl)
  · rw [heq]

/-- **Kept for good.**  If the fallback language has not changed since the cache
was empty, nothing in it differs from what would be made now. -/
theorem refreshable_of_steady {s₀ : Settings} {state : σ}
    (hstate : E.Serves (E.placeOf s₀.customThemePath) state) {front back : List Event}
    (hempty : ∀ k,
      ((start E.toEngine state s₀).live front).pipeline.cache.find? k = none) {f : String}
    (hfront : ((start E.toEngine state s₀).live front).pipeline.settings.fallbackLanguage = f)
    (hback : ∀ s, Event.update s ∈ back → s.fallbackLanguage = f) :
    Refreshable E ((start E.toEngine state s₀).live (front ++ back)) := by
  have hx := lived_live hstate front
  have hlive : (start E.toEngine state s₀).live (front ++ back) =
      ((start E.toEngine state s₀).live front).live back := List.foldl_append ..
  rw [hlive]
  generalize (start E.toEngine state s₀).live front = x at hempty hfront hx
  have hclean : Stocked E (E.placeOf x.pipeline.settings.customThemePath) (· = f) x.pipeline := by
    refine ⟨hx.toSettled, hfront, ?_⟩
    intro k e he
    rw [hempty k] at he
    cases he
  have hy := stocked_live back hclean hback
  intro _ k e hentry _ _
  obtain ⟨_, rfl, hmade⟩ := hy.entries k e hentry
  rw [← hy.fallback] at hmade
  exact (current_of_made hmade).stands

/-- **A rendering that is shown.**  If an entry that is alive is written like
what is made after the cache was cleared, it is written as it would be if it
were made now. -/
theorem stands_of_wrap (hy : Lived E y) (henabled : y.pipeline.settings.cacheEnabled = true)
    {k : CacheKey} {e : CacheEntry} (hentry : y.pipeline.cache.find? k = some e)
    (halive : y.pipeline.cache.isExpired y.now e = false)
    (hsame : ∀ config : BlockConfig, config.isValid = true → config.InRange →
      y.wrap e.source config = madeWrapper E y e.source config) :
    Stands E (E.placeOf y.pipeline.settings.customThemePath) y.pipeline.settings k e := by
  obtain ⟨f, -, hmade⟩ := hy.entries k e hentry
  intro config hvalid hrange hlanguage
  have hwrap := hsame { config with theme := some k.theme } hvalid ⟨hrange.startLine, hrange.lines⟩
  have hget : (y.pipeline.cache.get (.of e.source config.language k.theme) e.source y.now).1 =
      some e.document := by
    rw [hlanguage, ← hmade.key]
    exact Cache.get_eq_some_iff.mpr ⟨e, hentry, halive, hmade.hash, rfl, rfl⟩
  have hshown : y.pipeline.resolveTheme { config with theme := some k.theme } none = k.theme := rfl
  rw [wrap_eq, madeWrapper, hshown, highlighted_of_hit henabled hget, present_theme,
    present_theme] at hwrap
  rw [← hlanguage]
  exact Wrapper.render_injective hwrap

theorem Lived.reaches (hy : Lived E y) (hz : Reaches y z) :
    Lived E z ∧ z.pipeline.settings = y.pipeline.settings := by
  have hsettings : z.pipeline.settings = y.pipeline.settings :=
    hz.lasting (lasting_settings y.pipeline.settings) rfl
  have hstocked := hz.lasting (lasting_stocked E _ _) hy
  unfold Lived
  rw [hsettings]
  exact ⟨hstocked, rfl⟩

/-- Behind a cleared cache a block is put into the wrapper of what is made. -/
theorem wrap_clearCache (hy : Lived E y) (hz : Reaches y z) (code : String)
    {config : BlockConfig} (hvalid : config.isValid = true) (hrange : config.InRange) :
    (z.step .clearCache).wrap code config = madeWrapper E y code config := by
  have hcleared : Reaches y (z.step .clearCache) := hz.trans (reaches_step z (by simp))
  obtain ⟨hlived, hsettings⟩ := hy.reaches hcleared
  have hrefreshable : Refreshable E (z.step .clearCache) := by
    intro _ k e hentry _ _
    cases (Cache.find?_clear z.pipeline.cache k).symm.trans hentry
  have hwrap := wrap_eq_of_refreshable hlived hrefreshable (Reaches.refl _) code hvalid hrange
  rw [hwrap, madeWrapper, madeWrapper, hsettings, resolveTheme_congr hsettings hcleared.mode]

/-- **Refreshable sessions** are those that put every block into the wrapper of
what would be made now. -/
theorem refreshable_iff (hy : Lived E y) :
    Refreshable E y ↔ ∀ code (config : BlockConfig), config.isValid = true → config.InRange →
      y.wrap code config = madeWrapper E y code config := by
  constructor
  · intro hrefreshable code config hvalid hrange
    exact wrap_eq_of_refreshable hy hrefreshable (Reaches.refl y) code hvalid hrange
  · intro hsame henabled k e hentry halive _
    exact stands_of_wrap hy henabled hentry halive (hsame e.source)

/-! ## Pages -/

/-- Slots are filled with what every session from here on writes. -/
theorem fill_of_wrap {W : Slot → String} {slots : List Slot}
    (hW : ∀ x, Reaches y x → ∀ s ∈ slots, x.wrap s.code s.config = W s) (hz : Reaches y z)
    (last : String) :
    (fill slots last z.now z.pipeline).1 = page (slots.map fun s => (s, W s)) last := by
  obtain ⟨hslots, -, hwritten⟩ := mapM_fillSlot (I := fun p => Reaches y { z with pipeline := p })
    (fun code config p hp => hp.trans (reaches_renderWrapped ⟨p, z.now⟩ code config)) slots hz
  change page (slots.mapM (fillSlot z.now) z.pipeline).1 last = _
  generalize (slots.mapM (fillSlot z.now) z.pipeline).1 = blocks at hslots hwritten
  have hblocks : blocks.map (fun b => (b.1, W b.1)) = blocks := by
    refine (List.map_congr_left fun b hb => ?_).trans (List.map_id blocks)
    obtain ⟨q, hq, heq⟩ := hwritten b hb
    have hmem : b.1 ∈ slots := hslots ▸ List.mem_map_of_mem hb
    have hwrap : b.2 = W b.1 := heq.trans (hW _ hq b.1 hmem)
    exact Prod.ext rfl hwrap.symm
  rw [← hslots, List.map_map]
  exact congrArg (page · last) hblocks.symm

end Session

end CodeFence
