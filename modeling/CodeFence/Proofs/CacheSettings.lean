import CodeFence.Proofs.CacheRuns
import CodeFence.Proofs.SettingsUpdate

/-!
# The cache and the settings

New settings either replace the cache or give it a new capacity, by a
comparison with the settings before them.  Whichever it is, the cache that a
pipeline has is the one that its settings ask for: no event makes the bounds of
the two drift apart, and none fills a cache that is switched off.

* `Coherent` — the cache is well-formed, has the bounds of the settings, and is
  empty if it is not in use;
* `Coherent.updateSettings` — new settings keep it so, whatever the old ones
  were;
* `lasting_coherent` — so does every operation;
* `coherent_live` — so it is after any history.
-/

namespace CodeFence

variable {σ : Type}

namespace Pipeline

variable {p : Pipeline σ} {s : Settings}

/-- The cache is the one that the settings ask for. -/
structure Coherent (p : Pipeline σ) : Prop where
  wellFormed : p.cache.WellFormed
  capacity : p.cache.capacity = max 1 p.settings.maxCacheSize
  lifetime : p.cache.lifetime = p.settings.cacheSeconds * 1000
  unused : p.settings.cacheEnabled = false → p.cache.size = 0

/-- The cache that settings ask for is coherent with them. -/
theorem Coherent.of_freshCache (hcache : p.cache = freshCache p.settings) : Coherent p where
  wellFormed := by
    rw [hcache]
    exact Cache.wellFormed_empty _ _
  capacity := by
    rw [hcache]
    exact Nat.max_comm _ 1
  lifetime := by
    rw [hcache]
    rfl
  unused _ := by
    rw [hcache]
    rfl

/-- What only loads does not touch the cache. -/
theorem Coherent.of_onlyLoads {q : Pipeline σ} (hp : Coherent p) (h : OnlyLoads p q) :
    Coherent q where
  wellFormed := by
    rw [h.cache]
    exact hp.wellFormed
  capacity := by
    rw [h.cache, h.settings]
    exact hp.capacity
  lifetime := by
    rw [h.cache, h.settings]
    exact hp.lifetime
  unused hoff := by
    rw [h.cache]
    rw [h.settings] at hoff
    exact hp.unused hoff

/-- A cache in use may take on any entries within its bounds. -/
theorem Coherent.setCache (hp : Coherent p) (henabled : p.settings.cacheEnabled = true)
    {cache : Cache} (hformed : cache.WellFormed) (hcapacity : cache.capacity = p.cache.capacity)
    (hlifetime : cache.lifetime = p.cache.lifetime) : Coherent { p with cache } where
  wellFormed := hformed
  capacity := hcapacity.trans hp.capacity
  lifetime := hlifetime.trans hp.lifetime
  unused hoff := by
    rw [henabled] at hoff
    cases hoff

/-- **A block keeps the cache coherent.**  It goes past a cache that is not in
use; otherwise it is looked up, and it is put if it is not found. -/
theorem Coherent.highlighted (hp : Coherent p) (code language theme : String) (now : Nat) :
    Coherent (highlighted code language theme now p).2 := by
  have hloads : ∀ q : Pipeline σ, OnlyLoads q (renderSomehow code language theme q).2 :=
    fun q => (kept_onlyLoads q).renderSomehow code language theme (OnlyLoads.refl q)
  have hget : p.settings.cacheEnabled = true → Coherent (p.afterGet code language theme now) :=
    fun henabled => hp.setCache henabled (hp.wellFormed.get _ code now)
      (Cache.capacity_get _ _ code now) (Cache.within_get _ _ code now).lifetime
  rcases highlighted_cases code language theme now p with
    ⟨-, heq⟩ | ⟨henabled, d, -, heq⟩ | ⟨henabled, -, heq⟩
  · rw [heq]
    exact hp.of_onlyLoads (hloads p)
  · rw [heq]
    exact hget henabled
  · have hframe := hloads (p.afterGet code language theme now)
    have hrendered := (hget henabled).of_onlyLoads hframe
    have hstill : (renderSomehow code language theme
        (p.afterGet code language theme now)).2.settings.cacheEnabled = true := by
      rw [hframe.settings]
      exact henabled
    rw [heq]
    exact hrendered.setCache hstill (hrendered.wellFormed.put _ _ now)
      (Cache.capacity_put _ _ _ now) (Cache.lifetime_put _ _ _ now)

/-- **New settings keep the cache coherent.**  A cache that is kept is in use,
and its entries live as long as before, so that the capacity alone may differ. -/
theorem Coherent.updateSettings (hp : Coherent p) (s : Settings) :
    Coherent (p.updateSettings s) := by
  by_cases hdrops : p.DropsCache s
  · exact .of_freshCache (updateSettings_cache_of_drops hdrops)
  · obtain ⟨henabled, hdays, -⟩ := not_dropsCache_iff.mp hdrops
    have hcache := updateSettings_cache_of_keeps hdrops
    refine ⟨?_, ?_, ?_, ?_⟩
    · rw [hcache]
      exact Cache.WellFormed.setCapacity hp.wellFormed.toInStep _
    · rw [hcache, Cache.capacity_setCapacity]
      exact Nat.max_comm _ 1
    · have hseconds : s.cacheSeconds = p.settings.cacheSeconds := by
        rw [Settings.cacheSeconds, Settings.cacheSeconds, hdays]
      calc (p.updateSettings s).cache.lifetime
          = p.cache.lifetime := by rw [hcache, (Cache.within_setCapacity _ _).lifetime]
        _ = s.cacheSeconds * 1000 := by rw [hp.lifetime, hseconds]
    · intro hoff
      exact absurd (henabled.symm.trans hoff) (by decide)

end Pipeline

namespace Session

open Pipeline

/-- **Invariant.**  No operation takes the cache away from its settings. -/
theorem lasting_coherent : Lasting fun x : Session σ => Coherent x.pipeline where
  preload x hx := hx.of_onlyLoads (preload_onlyLoads x.pipeline)
  highlighted code language theme x hx := hx.highlighted code language theme x.now
  setMode _ _ hx := ⟨hx.wellFormed, hx.capacity, hx.lifetime, hx.unused⟩
  clearCache _ hx :=
    ⟨hx.wellFormed.step .clear, hx.capacity, hx.lifetime, fun _ => rfl⟩
  wait _ _ hx := hx

/-- The settings that a history leaves: the last ones that were given. -/
def latestSettings (s : Settings) (events : List Event) : Settings :=
  events.foldl (fun latest event =>
    match event with
    | .operation _ => latest
    | .update s => s) s

/-- The settings of a pipeline are the last ones that it was given. -/
theorem settings_live (x : Session σ) (events : List Event) :
    (x.live events).pipeline.settings = latestSettings x.pipeline.settings events := by
  induction events generalizing x with
  | nil => rfl
  | cons event rest ih =>
      cases event with
      | operation o =>
          have hsettings := (lasting_settings x.pipeline.settings).step rfl o
          refine (ih (x.step o)).trans ?_
          rw [hsettings]
          rfl
      | update s => exact ih (x.update s)

/-- **The cache follows the settings.**  After any history of a new pipeline
over any engine, its settings are the last ones that it was given, and its cache
is the one that these ask for: it has their capacity, which is one at least, and
their lifetime, it never holds more than its capacity, and it holds nothing
while it is switched off. -/
theorem coherent_live (engine : Engine σ) (state : σ) (s : Settings) (events : List Event) :
    let p := ((start engine state s).live events).pipeline
    let latest := latestSettings s events
    p.settings = latest ∧
      p.cache.capacity = max 1 latest.maxCacheSize ∧
      p.cache.lifetime = latest.cacheSeconds * 1000 ∧
      p.cache.size ≤ p.cache.capacity ∧
      (latest.cacheEnabled = false → p.cache.size = 0) := by
  intro p latest
  have hstart : Coherent (start engine state s).pipeline := .of_freshCache rfl
  have hlive : Coherent p :=
    lasting_coherent.live (fun s' x hx => hx.updateSettings s') hstart events
  have hsettings : p.settings = latest := settings_live (start engine state s) events
  have hcapacity := hlive.capacity
  have hlifetime := hlive.lifetime
  have hunused := hlive.unused
  rw [hsettings] at hcapacity hlifetime hunused
  exact ⟨hsettings, hcapacity, hlifetime, hlive.wellFormed.size, hunused⟩

end Session

end CodeFence
