import CodeFence.Proofs.PageSessions

/-!
# Laws of rendering a page again

What lies between the wrappers of a page is kept, every wrapper records what it
recorded before, and a page that was rendered again has nothing left to render.
The texts bear this out in full.  What a block looks like the second time
depends on the cache: a page stays as it is exactly if no rendering in an older
fallback language may still be shown.

* `Wrote` — the wrappers that the bundled engine and scripted ones write;
* `WrittenPage` — a page of such wrappers and texts without the mark of one;
* `refresh_page_iff` — the frame of a page, and when a page stays as it is;
* `refresh_twice_iff` — the second refresh sees what the first one saw, and when
  it changes nothing;
* `refresh_ne_of_stale`, `refresh_twice_ne_of_stale` — with a rendering in an
  older fallback language neither page stays.
-/

namespace CodeFence

open Markup

variable {σ : Type}

namespace Session

open Pipeline

/-- A wrapper that was written by a session over the bundled engine or over a
scripted one, through any history. -/
inductive Wrote (config : BlockConfig) (code : String) : String → Prop
  | bundled (analyse : Syntax.Analysis) (around : Surroundings) (state : Bundled) (s : Settings)
      (events : List Event) : Wrote config code
        (((start (Bundled.engineWith analyse around) state s).live events).wrap code config)
  | scripted (script : Script) (loaded : List String) (s : Settings) (events : List Event) :
      Wrote config code (((start script.engine loaded s).live events).wrap code config)

/-- A wrapper that was written between two moments. -/
def WroteBetween (y z : Session σ) (config : BlockConfig) (code wrapper : String) : Prop :=
  ∃ x, Reaches y x ∧ Reaches x z ∧ wrapper = x.wrap code config

/-- A page whose wrappers were written in some way, with no mark of a wrapper in
the texts between them. -/
def WrittenPage (W : BlockConfig → String → String → Prop) (blocks : List (Slot × String))
    (last : String) : Prop :=
  (∀ b ∈ blocks, b.1.Recordable ∧ ¬ Wrapper.mark <:+: b.1.before.toList ∧
    W b.1.config b.1.code b.2) ∧ ¬ Wrapper.mark <:+: last.toList

/-- At some moment the cache was empty, and the fallback language has not
changed since. -/
def SteadyFallback (engine : Engine σ) (state : σ) (s₀ : Settings) (events : List Event) : Prop :=
  ∃ front back, events = front ++ back ∧
    let x := (start engine state s₀).live front
    (∀ k, x.pipeline.cache.find? k = none) ∧
      ∀ s, Event.update s ∈ back → s.fallbackLanguage = x.pipeline.settings.fallbackLanguage

variable {y z : Session σ} {E : StableEngine σ}

theorem SteadyFallback.refreshable {s₀ : Settings} {state : σ}
    (hstate : E.Serves (E.placeOf s₀.customThemePath) state) {events : List Event}
    (h : SteadyFallback E.toEngine state s₀ events) :
    Refreshable E ((start E.toEngine state s₀).live events) := by
  obtain ⟨front, back, rfl, hempty, hback⟩ := h
  exact refreshable_of_steady hstate hempty rfl hback

/-- Whatever a tidy engine writes through some history is sound. -/
theorem sound_wrap {engine : Engine σ} (htidy : engine.Tidy) (state : σ) (s : Settings)
    (events : List Event) (code : String) (config : BlockConfig) :
    Wrapper.Sound config code (((start engine state s).live events).wrap code config) :=
  sound_renderWrapped htidy (supplied_live (vouches_tidy htidy) state s events) code config _

theorem Wrote.sound {config : BlockConfig} {code wrapper : String}
    (h : Wrote config code wrapper) : Wrapper.Sound config code wrapper := by
  cases h with
  | bundled analyse around state s events =>
      exact sound_wrap (Bundled.tidy_engineWith analyse around) state s events code config
  | scripted script loaded s events =>
      exact sound_wrap (Script.tidy_engine script) loaded s events code config

theorem pieces_of_no_mark {last : String} (h : ¬ Wrapper.mark <:+: last.toList) :
    Wrapper.pieces last.toList = [.text last.toList] :=
  Wrapper.pieces_of_find?_none (Wrapper.findAfter_eq_none_of_no_mark h [])

/-- A page of sound wrappers is rendered again slot by slot. -/
theorem WrittenPage.refresh_eq_fill {W : BlockConfig → String → String → Prop}
    (hW : ∀ config code wrapper, W config code wrapper → Wrapper.Sound config code wrapper)
    {blocks : List (Slot × String)} {last : String} (h : WrittenPage W blocks last) (now : Nat) :
    (Pipeline.refresh (page blocks last) now : StateM (Pipeline σ) String) =
      fill (blocks.map Prod.fst) last now :=
  refresh_page (fun b hb => (h.1 b hb).1) (fun b hb => Wrapper.quiet_of_no_mark (h.1 b hb).2.1)
    (fun b hb => hW _ _ _ (h.1 b hb).2.2) (pieces_of_no_mark h.2) now

theorem WrittenPage.blockAttributes_eq {W : BlockConfig → String → String → Prop}
    (hW : ∀ config code wrapper, W config code wrapper → Wrapper.Sound config code wrapper)
    {blocks : List (Slot × String)} {last : String} (h : WrittenPage W blocks last) :
    blockAttributes (page blocks last) =
      blocks.map fun b => Wrapper.recorded b.1.config b.1.code :=
  Wrapper.all_page (fun b hb => Wrapper.quiet_of_no_mark (h.1 b hb).2.1)
    (fun b hb => hW _ _ _ (h.1 b hb).2.2) h.2

/-- **The same blocks.**  A page that a tidy engine rendered again records what it
recorded before. -/
theorem WrittenPage.blockAttributes_refresh {W : BlockConfig → String → String → Prop}
    (hW : ∀ config code wrapper, W config code wrapper → Wrapper.Sound config code wrapper)
    {blocks : List (Slot × String)} {last : String} (h : WrittenPage W blocks last)
    {engine : Engine σ} (htidy : engine.Tidy) {q : Pipeline σ} (hq : TidyCache engine q)
    (now : Nat) :
    blockAttributes (Pipeline.refresh (page blocks last) now q).1 =
      blockAttributes (page blocks last) := by
  obtain ⟨hslots, -, hwritten⟩ := mapM_fillSlot (I := TidyCache engine)
    (fun code config p hp => hp.renderWrapped htidy code config now) (blocks.map Prod.fst) hq
  have hout : (Pipeline.refresh (page blocks last) now q).1 =
      page ((blocks.map Prod.fst).mapM (fillSlot now) q).1 last := by
    rw [h.refresh_eq_fill hW]
    rfl
  generalize ((blocks.map Prod.fst).mapM (fillSlot now) q).1 = written
    at hslots hwritten hout
  have hquiet : ∀ b ∈ written, Wrapper.Quiet b.1.before.toList := by
    intro b hb
    have hmem : b.1 ∈ blocks.map Prod.fst := hslots ▸ List.mem_map_of_mem hb
    obtain ⟨b', hb', heq⟩ := List.mem_map.mp hmem
    exact heq ▸ Wrapper.quiet_of_no_mark (h.1 b' hb').2.1
  have hsound : ∀ b ∈ written, Wrapper.Sound b.1.config b.1.code b.2 := by
    intro b hb
    obtain ⟨p, hp, heq⟩ := hwritten b hb
    exact heq ▸ sound_renderWrapped htidy hp _ _ _
  have hrecorded := congrArg (List.map fun s => Wrapper.recorded s.config s.code) hslots
  rw [List.map_map, List.map_map] at hrecorded
  rw [hout, h.blockAttributes_eq hW]
  exact (Wrapper.all_page hquiet hsound h.2).trans hrecorded

/-- The frame of a page: filling slots changes neither settings nor mode. -/
theorem sameFrame_fill {τ : Type} (slots : List Slot) (last : String) (now : Nat)
    (q : Pipeline τ) : SameFrame q (fill slots last now q).2 :=
  (mapM_fillSlot (I := SameFrame q)
    (fun _ _ p hp => hp.trans (highlighted_frame _ _ _ now p)) slots ⟨rfl, rfl, rfl, rfl⟩).2.1

/-- Whatever a session over a tidy engine writes later is sound, too. -/
theorem Reaches.sound_wrap {engine : Engine σ} (htidy : engine.Tidy)
    (hy : TidyCache engine y.pipeline) (hz : Reaches y z) (code : String) (config : BlockConfig) :
    Wrapper.Sound config code (z.wrap code config) :=
  sound_renderWrapped htidy (hz.lasting (lasting_supplied (vouches_tidy htidy)) hy) code config _

/-- Wrappers in a row are rendered again one after the other. -/
theorem refresh_row {blocks : List (Slot × String)}
    (h : ∀ b ∈ blocks, b.1.before = "" ∧ b.1.Recordable ∧
      Wrapper.Sound b.1.config b.1.code b.2) (now : Nat) :
    (Pipeline.refresh (page blocks "") now : StateM (Pipeline σ) String) =
      fill (blocks.map Prod.fst) "" now :=
  refresh_page (fun b hb => (h b hb).2.1)
    (fun b hb => by rw [(h b hb).1]; simp [Wrapper.Quiet]) (fun b hb => (h b hb).2.2)
    (Wrapper.pieces_of_find?_none rfl) now

/-- A page of one wrapper is that wrapper. -/
theorem page_one (config : BlockConfig) (code wrapper : String) :
    page [(⟨"", config, code⟩, wrapper)] "" = wrapper := by
  simp [page]

/-- One wrapper is rendered again as one. -/
theorem refresh_wrapper {config : BlockConfig} {code wrapper : String}
    (hvalid : config.isValid = true) (hrange : config.InRange)
    (hsound : Wrapper.Sound config code wrapper) (x : Session σ) :
    x.refresh wrapper = x.wrap code config := by
  have hrow := @refresh_row σ [(⟨"", config, code⟩, wrapper)]
    (by simpa using ⟨⟨hvalid, hrange⟩, hsound⟩) x.now
  rw [page_one] at hrow
  unfold Session.refresh
  rw [hrow]
  exact page_one config code _

/-- In a refreshable session every moment gives the same page. -/
theorem refresh_of_refreshable (hy : Lived E y) (hrefreshable : Refreshable E y)
    (hz : Reaches y z) (html : String) : z.refresh html = y.refresh html := by
  obtain ⟨found, last, hpieces, -⟩ := Wrapper.exists_pieces html.toList
  have hwrap : ∀ x, Reaches y x → ∀ s ∈ found.map Slot.ofFound,
      x.wrap s.code s.config = madeWrapper E y s.code s.config := by
    intro x hx s hs
    obtain ⟨f, -, rfl⟩ := List.mem_map.mp hs
    have hrecordable := Slot.recordable_ofFound f
    exact wrap_eq_of_refreshable hy hrefreshable hx _ hrecordable.valid hrecordable.inRange
  have hlater := fill_of_wrap hwrap hz (String.ofList last)
  have hnow := fill_of_wrap hwrap (Reaches.refl y) (String.ofList last)
  rw [← Pipeline.refresh_eq_fill hpieces] at hlater hnow
  exact hlater.trans hnow.symm

/-- **Pages that stay.**  In a refreshable session, and in no other one, a page
whose wrappers were written since stays as it is. -/
theorem refresh_written_iff (htidy : E.toEngine.Tidy) (hy : Lived E y)
    (hcache : TidyCache E.toEngine y.pipeline) :
    (∀ blocks last z, WrittenPage (WroteBetween y z) blocks last → Reaches y z →
        z.refresh (page blocks last) = page blocks last) ↔ Refreshable E y := by
  constructor
  · -- For each block there is a page with this block alone, written now and refreshed
    -- when the cache is empty.
    intro hstays
    refine (refreshable_iff hy).mpr fun code config hvalid hrange => ?_
    have hwritten := reaches_renderWrapped y code config
    generalize ({ y with pipeline := _ } : Session σ) = x at hwritten
    have hz : Reaches y (x.step .clearCache) := hwritten.trans (reaches_step x (by simp))
    have hsound := (Reaches.refl y).sound_wrap htidy hcache code config
    have hpage : WrittenPage (WroteBetween y (x.step .clearCache))
        [(⟨"", config, code⟩, y.wrap code config)] "" := by
      have hempty : ¬ Wrapper.mark <:+: "".toList := by decide
      refine ⟨?_, hempty⟩
      intro b hb
      obtain rfl := List.mem_singleton.mp hb
      exact ⟨⟨hvalid, hrange⟩, hempty, y, Reaches.refl y, hz, rfl⟩
    have hsame := hstays _ _ _ hpage hz
    rw [page_one, refresh_wrapper hvalid hrange hsound] at hsame
    rw [← hsame, wrap_clearCache hy hwritten code hvalid hrange]
  · intro hrefreshable blocks last z hpage hz
    have hsound : ∀ config code wrapper, WroteBetween y z config code wrapper →
        Wrapper.Sound config code wrapper := by
      rintro config code _ ⟨x, hx, -, rfl⟩
      exact hx.sound_wrap htidy hcache code config
    -- Each wrapper on the page, written whenever, is the one that is made now.
    have hwrap : ∀ x, Reaches y x → ∀ b ∈ blocks,
        x.wrap b.1.code b.1.config = madeWrapper E y b.1.code b.1.config := by
      intro x hx b hb
      have hrecordable := (hpage.1 b hb).1
      exact wrap_eq_of_refreshable hy hrefreshable hx _ hrecordable.valid hrecordable.inRange
    have hblocks : (blocks.map Prod.fst).map
        (fun s => (s, madeWrapper E y s.code s.config)) = blocks := by
      rw [List.map_map]
      refine (List.map_congr_left fun b hb => ?_).trans (List.map_id blocks)
      obtain ⟨x, hx, -, hb'⟩ := (hpage.1 b hb).2.2
      exact Prod.ext rfl ((hwrap x hx b hb).symm.trans hb'.symm)
    have hfill := @fill_of_wrap σ y z (fun s => madeWrapper E y s.code s.config)
      (blocks.map Prod.fst) (fun x hx s hs => by
        obtain ⟨b, hb, rfl⟩ := List.mem_map.mp hs
        exact hwrap x hx b hb) hz last
    unfold Session.refresh
    rw [hpage.refresh_eq_fill hsound, hfill, hblocks]

/-- **Twice is once.**  In a refreshable session, and in no other one, what was
rendered again is not changed by rendering it again. -/
theorem refresh_again_iff (htidy : E.toEngine.Tidy) (hy : Lived E y)
    (hcache : TidyCache E.toEngine y.pipeline) :
    (∀ html z, Reaches (y.afterRefresh html) z → z.refresh (y.refresh html) = y.refresh html) ↔
      Refreshable E y := by
  constructor
  · intro htwice
    refine (refreshable_iff hy).mpr fun code config hvalid hrange => ?_
    have hsound := (Reaches.refl y).sound_wrap htidy hcache code config
    have hafter := reaches_afterRefresh y (y.wrap code config)
    have hsame := htwice (y.wrap code config) _ (reaches_step _ (o := .clearCache) (by simp))
    rw [refresh_wrapper hvalid hrange hsound, refresh_wrapper hvalid hrange hsound] at hsame
    rw [← hsame, wrap_clearCache hy hafter code hvalid hrange]
  · intro hrefreshable html z hz
    have hreached : Reaches y z := (reaches_afterRefresh y html).trans hz
    have hagain : z.refresh (y.refresh html) = z.refresh html := by
      unfold Session.refresh
      rw [refresh_refresh htidy hcache]
    rw [hagain, refresh_of_refreshable hy hrefreshable hreached]

/-! ## The laws -/

/-- **The frame of a page.**  In a page whose wrappers were written at any time
by the bundled engine or by scripted ones, every text is kept, and every wrapper
gives way to the one that the pipeline writes now for the same source and
configuration; so the wrappers record what they recorded before.  Over a stable
engine a page that was written since stays as it is exactly if no fallback
rendering in the cache differs from what would be made now.  That is so if the
fallback language has not changed since the cache was empty. -/
theorem refresh_page_iff (E : StableEngine σ) (htidy : E.toEngine.Tidy) {s₀ : Settings}
    {state : σ} (hstate : E.Serves (E.placeOf s₀.customThemePath) state)
    (events : List Event) :
    let y := (start E.toEngine state s₀).live events
    (∀ blocks last, WrittenPage Wrote blocks last →
      (∀ {τ : Type} (q : Pipeline τ) (now : Nat),
        Pipeline.refresh (page blocks last) now q = fill (blocks.map Prod.fst) last now q ∧
          SameFrame q (Pipeline.refresh (page blocks last) now q).2) ∧
      ∀ {τ : Type} (engine : Engine τ), engine.Tidy → ∀ other s history,
        let x := (start engine other s).live history
        blockAttributes (x.refresh (page blocks last)) = blockAttributes (page blocks last)) ∧
    ((∀ blocks last z, WrittenPage (WroteBetween y z) blocks last → Reaches y z →
        z.refresh (page blocks last) = page blocks last) ↔ Refreshable E y) ∧
    (SteadyFallback E.toEngine state s₀ events → Refreshable E y) := by
  intro y
  have hlived : Lived E y := lived_live hstate events
  have hcache : TidyCache E.toEngine y.pipeline :=
    supplied_live (vouches_tidy htidy) state s₀ events
  refine ⟨?_, refresh_written_iff htidy hlived hcache, fun h => h.refreshable hstate⟩
  intro blocks last hpage
  have hsound : ∀ config code wrapper, Wrote config code wrapper →
      Wrapper.Sound config code wrapper := fun _ _ _ h => h.sound
  refine ⟨?_, ?_⟩
  · intro τ q now
    rw [hpage.refresh_eq_fill hsound]
    exact ⟨rfl, sameFrame_fill _ _ _ _⟩
  · intro τ engine hengine other s history
    exact hpage.blockAttributes_refresh hsound hengine
      (supplied_live (vouches_tidy hengine) other s history) _

/-- The bundled engine with a fallback language that it does not know, and
settings that name another one. -/
theorem refresh_page_iff_cobol :
    let E := Bundled.stable Syntax.analysis {}
    let s₀ : Settings := { fallbackLanguage := "cobol", transformers := false }
    let events : List Event := [.operation (.render "x" "cobol" { language := "cobol" } none),
      .update { fallbackLanguage := "text", transformers := false }]
    let y := (start E.toEngine (Bundled.ofSettings {} s₀) s₀).live events
    E.toEngine.Tidy ∧ E.Serves (E.placeOf s₀.customThemePath) (Bundled.ofSettings {} s₀) ∧
    (∀ blocks last, WrittenPage Wrote blocks last →
      (∀ {τ : Type} (q : Pipeline τ) (now : Nat),
        Pipeline.refresh (page blocks last) now q = fill (blocks.map Prod.fst) last now q ∧
          SameFrame q (Pipeline.refresh (page blocks last) now q).2) ∧
      ∀ {τ : Type} (engine : Engine τ), engine.Tidy → ∀ other s history,
        let x := (start engine other s).live history
        blockAttributes (x.refresh (page blocks last)) = blockAttributes (page blocks last)) ∧
    ((∀ blocks last z, WrittenPage (WroteBetween y z) blocks last → Reaches y z →
        z.refresh (page blocks last) = page blocks last) ↔ Refreshable E y) ∧
    (SteadyFallback E.toEngine (Bundled.ofSettings {} s₀) s₀ events → Refreshable E y) := by
  intro E s₀ events y
  have htidy := Bundled.tidy_engineWith Syntax.analysis {}
  have hstate := Bundled.serves_ofSettings {} s₀
  exact ⟨htidy, hstate, refresh_page_iff E htidy hstate events⟩

/-- **Twice is once, as far as the page goes.**  Whatever text is rendered again,
every pipeline renders the result as it renders the text itself.  Over a stable
engine the result is not changed by this, as long as neither settings nor mode
change, exactly if no fallback rendering in the cache differs from what would be
made now.  That is so if the fallback language has not changed since the cache
was empty. -/
theorem refresh_twice_iff (E : StableEngine σ) (htidy : E.toEngine.Tidy) {s₀ : Settings}
    {state : σ} (hstate : E.Serves (E.placeOf s₀.customThemePath) state)
    (events : List Event) :
    let y := (start E.toEngine state s₀).live events
    (∀ html {τ : Type} (q : Pipeline τ) (later : Nat),
      Pipeline.refresh (y.refresh html) later q = Pipeline.refresh html later q) ∧
    ((∀ html z, Reaches (y.afterRefresh html) z →
        z.refresh (y.refresh html) = y.refresh html) ↔ Refreshable E y) ∧
    (SteadyFallback E.toEngine state s₀ events → Refreshable E y) := by
  intro y
  have hlived : Lived E y := lived_live hstate events
  have hcache : TidyCache E.toEngine y.pipeline :=
    supplied_live (vouches_tidy htidy) state s₀ events
  refine ⟨?_, refresh_again_iff htidy hlived hcache, fun h => h.refreshable hstate⟩
  intro html τ q later
  exact congrFun (refresh_refresh htidy hcache html y.now later) q

/-- The same session renders a page again. -/
theorem refresh_twice_iff_cobol :
    let E := Bundled.stable Syntax.analysis {}
    let s₀ : Settings := { fallbackLanguage := "cobol", transformers := false }
    let events : List Event := [.operation (.render "x" "cobol" { language := "cobol" } none),
      .update { fallbackLanguage := "text", transformers := false }]
    let y := (start E.toEngine (Bundled.ofSettings {} s₀) s₀).live events
    E.toEngine.Tidy ∧ E.Serves (E.placeOf s₀.customThemePath) (Bundled.ofSettings {} s₀) ∧
    (∀ html {τ : Type} (q : Pipeline τ) (later : Nat),
      Pipeline.refresh (y.refresh html) later q = Pipeline.refresh html later q) ∧
    ((∀ html z, Reaches (y.afterRefresh html) z →
        z.refresh (y.refresh html) = y.refresh html) ↔ Refreshable E y) ∧
    (SteadyFallback E.toEngine (Bundled.ofSettings {} s₀) s₀ events → Refreshable E y) := by
  intro E s₀ events y
  have htidy := Bundled.tidy_engineWith Syntax.analysis {}
  have hstate := Bundled.serves_ofSettings {} s₀
  exact ⟨htidy, hstate, refresh_twice_iff E htidy hstate events⟩

/-! ## A rendering in an older fallback language -/

/-- A block of a language that the bundled engine does not know. -/
def cobol : BlockConfig := { language := "cobol" }

/-- A session with room for one rendering, which holds one that was made in an
older fallback language. -/
def staleSession : Session Bundled :=
  let s₀ : Settings := { fallbackLanguage := "cobol", maxCacheSize := 1, transformers := false }
  (start (Bundled.engine {}) (Bundled.ofSettings {} s₀) s₀).live
    [.operation (.render "x" "cobol" cobol none),
      .update { fallbackLanguage := "text", maxCacheSize := 1, transformers := false }]

/-- Two such blocks in a row. -/
def cobolSlots : List Slot :=
  [⟨"", cobol, "x"⟩, ⟨"", cobol, "y"⟩]

/-- The old rendering is shown the first time, and the second block takes its
place in the cache. -/
theorem fill_staleSession :
    let first := fill cobolSlots "" staleSession.now staleSession.pipeline
    (fill cobolSlots "" staleSession.now first.2).1 ≠ first.1 := by
  decide +kernel

theorem tidyCache_staleSession :
    TidyCache (Bundled.engineWith Syntax.analysis {}) staleSession.pipeline := by
  unfold staleSession
  exact supplied_live (vouches_tidy (Bundled.tidy_engineWith Syntax.analysis {})) _ _ _

theorem page_cobol (x y : String) :
    page [(⟨"", cobol, "x"⟩, x), (⟨"", cobol, "y"⟩, y)] "" = x ++ y := by
  simp [page]

/-- Two wrappers in a row are rendered again as two blocks. -/
theorem refresh_cobolWrappers {x y : String}
    (hx : Wrapper.Sound cobol "x" x) (hy : Wrapper.Sound cobol "y" y) (now : Nat) :
    (Pipeline.refresh (x ++ y) now : StateM (Pipeline σ) String) = fill cobolSlots "" now := by
  have hvalid : cobol.isValid = true := by decide
  have hrange : cobol.InRange := ⟨by decide, by decide⟩
  have hrow := @refresh_row σ [(⟨"", cobol, "x"⟩, x), (⟨"", cobol, "y"⟩, y)]
    (by simpa using ⟨⟨⟨hvalid, hrange⟩, hx⟩, ⟨hvalid, hrange⟩, hy⟩) now
  rw [page_cobol] at hrow
  exact hrow

theorem fill_cobolSlots (now : Nat) (p : Pipeline σ) :
    let first := renderWrapped "x" cobol now p
    let second := renderWrapped "y" cobol now first.2
    fill cobolSlots "" now p = (first.1 ++ second.1, second.2) := by
  intro first second
  have hfilled : cobolSlots.mapM (fillSlot now) p =
      ([(⟨"", cobol, "x"⟩, first.1), (⟨"", cobol, "y"⟩, second.1)], second.2) := by
    rw [cobolSlots, mapM_cons_run, mapM_cons_run, fillSlot_run, fillSlot_run]
    rfl
  have hfill : fill cobolSlots "" now p = (page (cobolSlots.mapM (fillSlot now) p).1 "",
      (cobolSlots.mapM (fillSlot now) p).2) := rfl
  rw [hfill, hfilled, page_cobol]

/-- What is rendered the first time is not what is rendered the second time. -/
theorem refresh_pair_ne {engine : Engine σ} (htidy : engine.Tidy) {p : Pipeline σ}
    (hp : TidyCache engine p) {now : Nat}
    (hne : (fill cobolSlots "" now (fill cobolSlots "" now p).2).1 ≠
      (fill cobolSlots "" now p).1) :
    let first := renderWrapped "x" cobol now p
    let second := renderWrapped "y" cobol now first.2
    (Pipeline.refresh (first.1 ++ second.1) now second.2).1 ≠ first.1 ++ second.1 := by
  intro first second
  have hx : Wrapper.Sound cobol "x" first.1 := sound_renderWrapped htidy hp _ _ _
  have hy : Wrapper.Sound cobol "y" second.1 :=
    sound_renderWrapped htidy (hp.renderWrapped htidy "x" cobol now) _ _ _
  have hfill : fill cobolSlots "" now p = (first.1 ++ second.1, second.2) :=
    fill_cobolSlots now p
  rw [hfill] at hne
  rw [refresh_cobolWrappers hx hy]
  exact hne

/-- What is rendered again is not what is rendered again once more. -/
theorem refresh_refresh_pair_ne {engine : Engine σ} (htidy : engine.Tidy) {y : Session σ}
    (hy : TidyCache engine y.pipeline)
    (hne : (fill cobolSlots "" y.now (fill cobolSlots "" y.now y.pipeline).2).1 ≠
      (fill cobolSlots "" y.now y.pipeline).1) :
    let html := y.wrap "x" cobol ++ y.wrap "y" cobol
    (y.afterRefresh html).refresh (y.refresh html) ≠ y.refresh html := by
  intro html
  have hwrap : ∀ code, Wrapper.Sound cobol code (y.wrap code cobol) := fun code =>
    sound_renderWrapped htidy hy code cobol y.now
  have hrefresh : (Pipeline.refresh html y.now : StateM (Pipeline σ) String) =
      fill cobolSlots "" y.now := refresh_cobolWrappers (hwrap "x") (hwrap "y") y.now
  unfold Session.afterRefresh Session.refresh
  rw [refresh_refresh htidy hy, hrefresh]
  exact hne

/-- **A page that changes by itself.**  Two blocks are rendered in a row, and then
rendered again with nothing else in between. -/
theorem refresh_ne_of_stale :
    let y := staleSession
    let first := renderWrapped "x" cobol y.now y.pipeline
    let second := renderWrapped "y" cobol y.now first.2
    (Pipeline.refresh (first.1 ++ second.1) y.now second.2).1 ≠ first.1 ++ second.1 :=
  refresh_pair_ne (Bundled.tidy_engineWith Syntax.analysis {}) tidyCache_staleSession
    fill_staleSession

/-- **Twice is not once.**  Two wrappers are rendered again, and then once more
with nothing else in between. -/
theorem refresh_twice_ne_of_stale :
    let y := staleSession
    let html := y.wrap "x" cobol ++ y.wrap "y" cobol
    (y.afterRefresh html).refresh (y.refresh html) ≠ y.refresh html :=
  refresh_refresh_pair_ne (Bundled.tidy_engineWith Syntax.analysis {}) tidyCache_staleSession
    fill_staleSession

end Session

end CodeFence
