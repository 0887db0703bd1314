import Mathlib.Data.List.Nodup
import CodeFence.Proofs.LiveEntries

/-!
# What goes from a cache

A cache that is full drops what has expired, and only if nothing has, the entry
that was used least recently.  That is how a put makes room.  A smaller capacity
makes room otherwise: it drops the entries that were used least recently,
whether they are alive or not.

* `ExpiredFirst` — a live entry goes only if the live ones alone are too many,
  and then no expired one stays;
* `expiredFirst_put` — every put is such;
* `expiredFirst_setCapacity_iff` — a new capacity is such exactly if what goes
  has expired, or what stays is alive;
* `not_expiredFirst_setCapacity` — a fallback rendering that has expired stays,
  and a live block goes.
-/

namespace CodeFence.Cache

variable {c c' : Cache} {k : CacheKey} {e : CacheEntry} {now : Nat}

/-- How many entries are alive. -/
def liveCount (c : Cache) (now : Nat) : Nat :=
  c.entries.countP fun p => !c.isExpired now p.2

/-- What goes for want of room, where `room` of the entries may stay: a live one
only if the live ones alone are too many, and only if no expired one stays. -/
structure ExpiredFirst (room now : Nat) (c c' : Cache) : Prop where
  tooMany : ∀ k e, c.Holds now k e → c'.find? k = none → room < c.liveCount now
  noneStays : ∀ k e, c.Holds now k e → c'.find? k = none →
    ∀ k' e', c.find? k' = some e' → c'.find? k' = some e' → c.isExpired now e' = false

/-- The queue and the entries differ in their order only. -/
theorem InStep.queue_perm_entries (h : InStep c) : c.queue.Perm c.entries := by
  have hqueue : c.queue.Nodup := List.Nodup.of_map Prod.fst h.nodup_queue
  have hentries : c.entries.Nodup := List.Nodup.of_map Prod.fst h.nodup_keys
  refine (List.perm_ext_iff_of_nodup hqueue hentries).mpr ?_
  rintro ⟨k, e⟩
  rw [h.mem_queue, h.find?_eq_some_iff]

theorem InStep.liveCount_eq (h : InStep c) (now : Nat) :
    c.liveCount now = c.queue.countP fun p => !c.isExpired now p.2 := by
  rw [liveCount, h.queue_perm_entries.countP_eq]

theorem InStep.length_live (h : InStep c) (now : Nat) :
    (c.live now).length = c.liveCount now := by
  rw [h.liveCount_eq, List.countP_eq_length_filter]
  rfl

/-! ## Puts -/

/-- If the live entries fill a cache, nothing in it has expired. -/
theorem WellFormed.live_eq_queue (h : WellFormed c) (hfills : c.capacity ≤ (c.live now).length) :
    c.live now = c.queue := by
  have hsize := h.size
  by_contra hlive
  have hlt := h.length_live_lt hlive
  omega

/-- A put drops a live entry only if the live entries fill the cache. -/
theorem WellFormed.capacity_le_of_dropped (h : WellFormed c) {k' : CacheKey} {e' : CacheEntry}
    (hholds : c.Holds now k e) (hdropped : (c.put k' e' now).find? k = none) :
    c.capacity ≤ (c.live now).length := by
  by_contra hroom
  have hk : k ≠ k' := by
    rintro rfl
    rw [find?_put_self] at hdropped
    cases hdropped
  have hkept : (k, e) ∈ survivors c.capacity k' (c.live now) := by
    rw [survivors, if_pos (Or.inl (Nat.lt_of_not_le hroom))]
    exact List.mem_filter.mpr ⟨h.mem_live.mpr hholds, decide_eq_true hk⟩
  have hafter : (k, e) ∈ (c.put k' e' now).live now := by
    rw [h.live_put]
    exact List.mem_append_left _ hkept
  rw [((h.put k' e' now).mem_live.mp hafter).1] at hdropped
  cases hdropped

/-- **Room for a put.**  If a live entry goes, then the live ones alone have
filled the cache, and nothing in it has expired. -/
theorem WellFormed.expiredFirst_put (h : WellFormed c) (k : CacheKey) (e : CacheEntry)
    (now : Nat) : ExpiredFirst (c.capacity - 1) now c (c.put k e now) := by
  have hcapacity := h.capacity
  refine ⟨fun k' e' hholds hdropped => ?_, fun k' e' hholds hdropped k'' e'' hfound _ => ?_⟩
  · have hfills := h.capacity_le_of_dropped hholds hdropped
    rw [h.length_live] at hfills
    omega
  · have hlive := h.live_eq_queue (h.capacity_le_of_dropped hholds hdropped)
    have hmem : (k'', e'') ∈ c.live now := by
      rw [hlive]
      exact h.mem_queue.mpr hfound
    exact (h.mem_live.mp hmem).2

/-! ## A new capacity -/

variable {capacity : Nat}

/-- The entries that do not fit a new capacity: those that were used least
recently. -/
def leaving (c : Cache) (capacity : Nat) : List (CacheKey × CacheEntry) :=
  c.queue.take (c.size - max capacity 1)

/-- The entries that fit a new capacity: those that were used most recently. -/
def staying (c : Cache) (capacity : Nat) : List (CacheKey × CacheEntry) :=
  c.queue.drop (c.size - max capacity 1)

theorem leaving_append_staying (c : Cache) (capacity : Nat) :
    c.leaving capacity ++ c.staying capacity = c.queue :=
  List.take_append_drop _ _

/-- If anything leaves, as many entries stay as the capacity allows. -/
theorem InStep.length_staying (h : InStep c) (hleaving : 0 < (c.leaving capacity).length) :
    (c.staying capacity).length = max capacity 1 := by
  rw [leaving, List.length_take] at hleaving
  rw [staying, List.length_drop, h.length_queue]
  omega

/-- What is found under the new capacity is what stays. -/
theorem InStep.find?_setCapacity (h : InStep c) :
    (c.setCapacity capacity).find? k = some e ↔ (k, e) ∈ c.staying capacity := by
  rw [← (h.setCapacity capacity).mem_queue, queue_setCapacity h, staying]

/-- What is not found any more is what leaves. -/
theorem InStep.find?_setCapacity_eq_none (h : InStep c) (hfound : c.find? k = some e) :
    (c.setCapacity capacity).find? k = none ↔ (k, e) ∈ c.leaving capacity := by
  have hmem : (k, e) ∈ c.leaving capacity ++ c.staying capacity := by
    rw [leaving_append_staying]
    exact h.mem_queue.mpr hfound
  have hnodup : (c.leaving capacity ++ c.staying capacity).Nodup := by
    rw [leaving_append_staying]
    exact List.Nodup.of_map Prod.fst h.nodup_queue
  constructor
  · intro hnone
    refine (List.mem_append.mp hmem).resolve_right fun hstays => ?_
    rw [h.find?_setCapacity.mpr hstays] at hnone
    cases hnone
  · intro hleaves
    cases hafter : (c.setCapacity capacity).find? k with
    | none => rfl
    | some e' =>
        obtain rfl : e = e' := Option.some.inj
          (hfound.symm.trans ((within_setCapacity c capacity).find? k e' hafter))
        have hstays := h.find?_setCapacity.mp hafter
        exact absurd rfl ((List.nodup_append.mp hnodup).2.2 _ hleaves _ hstays)

/-- If a live entry leaves and everything that stays is alive, the live ones are
more than may stay. -/
theorem InStep.lt_liveCount (h : InStep c) (hleaves : (k, e) ∈ c.leaving capacity)
    (halive : c.isExpired now e = false)
    (hstay : ∀ p ∈ c.staying capacity, c.isExpired now p.2 = false) :
    max capacity 1 < c.liveCount now := by
  have hlength := h.length_staying (List.length_pos_of_mem hleaves)
  have hleaving : 0 < (c.leaving capacity).countP fun p => !c.isExpired now p.2 :=
    List.countP_pos_iff.mpr ⟨(k, e), hleaves, by simp [halive]⟩
  have hstaying : (c.staying capacity).countP (fun p => !c.isExpired now p.2) =
      (c.staying capacity).length :=
    List.countP_eq_length.mpr fun p hp => by simp [hstay p hp]
  rw [h.liveCount_eq, ← leaving_append_staying c capacity, List.countP_append]
  omega

/-- **Room under a new capacity.**  Expired entries go first exactly if all that
leave have expired, or none of those that stay. -/
theorem InStep.expiredFirst_setCapacity_iff (h : InStep c) (capacity now : Nat) :
    ExpiredFirst (max capacity 1) now c (c.setCapacity capacity) ↔
      (∀ p ∈ c.leaving capacity, c.isExpired now p.2 = true) ∨
        ∀ p ∈ c.staying capacity, c.isExpired now p.2 = false := by
  have hqueue : ∀ p, p ∈ c.leaving capacity ∨ p ∈ c.staying capacity →
      c.find? p.1 = some p.2 := by
    intro p hp
    rw [← List.mem_append, leaving_append_staying] at hp
    exact h.mem_queue.mp hp
  constructor
  · intro hfirst
    -- One entry that leaves alive allows no expired entry among those that stay.
    by_cases hleaving : ∀ p ∈ c.leaving capacity, c.isExpired now p.2 = true
    · exact Or.inl hleaving
    · refine Or.inr fun p hp => ?_
      obtain ⟨⟨k, e⟩, hleaves, halive⟩ := by simpa only [not_forall] using hleaving
      have hfound := hqueue (k, e) (Or.inl hleaves)
      exact hfirst.noneStays k e ⟨hfound, Bool.eq_false_iff.mpr halive⟩
        ((h.find?_setCapacity_eq_none hfound).mpr hleaves) p.1 p.2 (hqueue p (Or.inr hp))
        (h.find?_setCapacity.mpr hp)
  · rintro (hleaving | hstaying)
    · have hnone : ∀ k e, c.Holds now k e → (c.setCapacity capacity).find? k ≠ none := by
        rintro k e ⟨hfound, halive⟩ hdropped
        rw [hleaving _ ((h.find?_setCapacity_eq_none hfound).mp hdropped)] at halive
        cases halive
      exact ⟨fun k e hholds hdropped => absurd hdropped (hnone k e hholds),
        fun k e hholds hdropped => absurd hdropped (hnone k e hholds)⟩
    · refine ⟨fun k e hholds hdropped => ?_, fun _ _ _ _ k' e' _ hstays => ?_⟩
      · exact h.lt_liveCount ((h.find?_setCapacity_eq_none hholds.1).mp hdropped) hholds.2 hstaying
      · exact hstaying (k', e') (h.find?_setCapacity.mp hstays)

/-- **What goes for want of room.**  After any calls of an empty cache and at any
time: a put never drops a live entry while the live ones leave room for one
more, nor while an expired one stays.  A new capacity keeps to this exactly if
all the entries that leave, the least recently used ones, have expired, or none
of those that stay. -/
theorem expiredFirst_run (capacity lifetime : Nat) (past : List Call) (now : Nat) :
    let c := (empty capacity lifetime).run past
    (∀ k e, ExpiredFirst (c.capacity - 1) now c (c.put k e now)) ∧
      ∀ capacity', ExpiredFirst (max capacity' 1) now c (c.setCapacity capacity') ↔
        (∀ p ∈ c.leaving capacity', c.isExpired now p.2 = true) ∨
          ∀ p ∈ c.staying capacity', c.isExpired now p.2 = false := by
  intro c
  have hrun : WellFormed c := (wellFormed_empty capacity lifetime).run past
  exact ⟨fun k e => hrun.expiredFirst_put k e now,
    fun capacity' => hrun.expiredFirst_setCapacity_iff capacity' now⟩

/-- **A live block goes, an expired one stays.**  A fallback rendering that was
used last has outlived its five minutes when the capacity is lowered to one;
the block before it, which is alive for an hour, is the one that goes. -/
theorem not_expiredFirst_setCapacity :
    let a := CacheKey.of "a" "text" "dark-plus"
    let b := CacheKey.of "b" "text" "dark-plus"
    let c := (empty 2 3600000).run [.access (.put a (.of (.plain "a") "a" false 0) 0),
      .access (.put b (.of (.plain "b") "b" true 0) 0)]
    ¬ ExpiredFirst (max 1 1) 300000 c (c.setCapacity 1) := by
  intro a b c hfirst
  have hkept : c.isExpired 300000 (.of (.plain "b") "b" true 0) = false :=
    hfirst.noneStays a (.of (.plain "a") "a" false 0) ⟨rfl, rfl⟩ rfl b _ rfl rfl
  have hexpired : c.isExpired 300000 (.of (.plain "b") "b" true 0) = true := rfl
  rw [hexpired] at hkept
  cases hkept

end CodeFence.Cache
