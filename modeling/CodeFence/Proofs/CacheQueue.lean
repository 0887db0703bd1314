import Mathlib.Data.List.Basic
import CodeFence.Proofs.CacheEntries

/-!
# The queue of a cache

A cache keeps its entries in one list and the order of their use in another.
As long as the two are in step, the cache is nothing but a queue: its entries,
from the least to the most recently used.  Every operation is then a simple
step of the queue.

* `InStep` — the order names each key of an entry once, and no other key;
  every operation keeps this;
* `InStep.mem_queue`, `InStep.length_queue` — the queue holds the entries that
  are found;
* `queue_enqueue`, `InStep.queue_touch` — what is used moves to the back;
* `queue_remove`, `queue_evictOldest`, `queue_evictMany` — what goes leaves the
  others in their order, and an eviction takes from the front;
* `queue_makeRoom_of_live`, `queue_makeRoom_of_expired` — making room takes the
  front if no entry has expired, and all expired ones otherwise.
-/

namespace CodeFence.Cache

variable {c c' : Cache} {k k' : CacheKey} {e e' : CacheEntry} {now : Nat}

/-- The keys under which there is an entry are in the order of use, each of
them once, and there are no others. -/
structure InStep (c : Cache) : Prop where
  nodup : c.order.Nodup
  keys : c.order.Perm (c.entries.map Prod.fst)

/-- The entries with their keys, from the least to the most recently used. -/
def queue (c : Cache) : List (CacheKey × CacheEntry) :=
  c.order.filterMap fun k => (c.find? k).map (k, ·)

namespace InStep

theorem nodup_keys (h : InStep c) : (c.entries.map Prod.fst).Nodup :=
  h.keys.nodup_iff.mp h.nodup

theorem find?_eq_some_iff (h : InStep c) : c.find? k = some e ↔ (k, e) ∈ c.entries :=
  lookup_eq_some_iff_mem h.nodup_keys

/-- No key without an entry, and no entry without its key. -/
theorem mem_order_iff (h : InStep c) : k ∈ c.order ↔ ∃ e, c.find? k = some e := by
  simp only [h.find?_eq_some_iff, h.keys.mem_iff, List.mem_map, Prod.exists]
  constructor
  · rintro ⟨k', e, he, rfl⟩
    exact ⟨e, he⟩
  · rintro ⟨e, he⟩
    exact ⟨k, e, he, rfl⟩

theorem length_order (h : InStep c) : c.order.length = c.size := by
  rw [h.keys.length_eq, List.length_map, size]

/-- The queue holds the entries that are found. -/
theorem mem_queue (h : InStep c) : (k, e) ∈ c.queue ↔ c.find? k = some e := by
  simp only [queue, List.mem_filterMap, Option.map_eq_some_iff, Prod.mk.injEq]
  constructor
  · rintro ⟨key, -, entry, hfound, rfl, rfl⟩
    exact hfound
  · intro hfound
    exact ⟨k, h.mem_order_iff.mpr ⟨e, hfound⟩, e, hfound, rfl, rfl⟩

/-- The queue is in the order of use. -/
theorem map_fst_queue (h : InStep c) : c.queue.map Prod.fst = c.order := by
  have hfound : ∀ k ∈ c.order,
      ((c.find? k).map (k, ·)).map Prod.fst = some k := by
    intro k hk
    obtain ⟨e, he⟩ := h.mem_order_iff.mp hk
    rw [he]
    rfl
  rw [queue, List.map_filterMap, List.filterMap_congr hfound, List.filterMap_some]

theorem length_queue (h : InStep c) : c.queue.length = c.size := by
  rw [← h.length_order, ← h.map_fst_queue, List.length_map]

theorem nodup_queue (h : InStep c) : (c.queue.map Prod.fst).Nodup := by
  rw [h.map_fst_queue]
  exact h.nodup

/-- Each key stands once in the queue. -/
theorem queue_unique (h : InStep c) (he : (k, e) ∈ c.queue) (he' : (k, e') ∈ c.queue) :
    e = e' := by
  rw [h.mem_queue] at he he'
  exact Option.some.inj (he.symm.trans he')

/-- Without the entry under a key that is found, the queue is shorter. -/
theorem length_filter_ne_lt (h : InStep c) (hfound : c.find? k = some e) :
    (c.queue.filter (·.1 ≠ k)).length < c.size := by
  rw [← h.length_queue]
  exact List.length_filter_lt_length_iff_exists.mpr ⟨(k, e), h.mem_queue.mpr hfound, by simp⟩

/-- The first key of the order is the first of the queue. -/
theorem queue_eq_cons (h : InStep c) {rest : List CacheKey} (horder : c.order = k :: rest) :
    ∃ e tail, c.queue = (k, e) :: tail ∧ tail.map Prod.fst = rest := by
  have hkeys := h.map_fst_queue
  rw [horder] at hkeys
  obtain ⟨⟨key, e⟩, tail, hqueue, hkey, htail⟩ := List.map_eq_cons_iff.mp hkeys
  cases hkey
  exact ⟨e, tail, hqueue, htail⟩

end InStep

/-! ## What the operations do to the queue -/

theorem inStep_empty (capacity lifetime : Nat) : InStep (empty capacity lifetime) :=
  ⟨List.nodup_nil, List.Perm.refl _⟩

theorem inStep_clear (c : Cache) : InStep c.clear :=
  ⟨List.nodup_nil, List.Perm.refl _⟩

theorem InStep.resize (h : InStep c) (capacity : Nat) : InStep { c with capacity } :=
  ⟨h.nodup, h.keys⟩

theorem InStep.remove (h : InStep c) (k : CacheKey) : InStep (c.remove k) := by
  refine ⟨h.nodup.filter _, ?_⟩
  have hperm := h.keys.filter (· ≠ k)
  rwa [List.filter_map] at hperm

/-- Where only one key is looked up differently, the queue of the other keys is
the same. -/
theorem filterMap_find?_filter_ne (hother : ∀ k', k' ≠ k → c'.find? k' = c.find? k') :
    (c.order.filter (· ≠ k)).filterMap (fun k' => (c'.find? k').map (k', ·)) =
      c.queue.filter (·.1 ≠ k) := by
  rw [queue, List.filter_filterMap, List.filterMap_filter]
  refine List.filterMap_congr fun k' _ => ?_
  -- The key itself is filtered out on both sides, whatever is found under it.
  by_cases hk : k' = k
  · subst hk
    cases c.find? k' <;> simp [Option.filter]
  · rw [hother k' hk]
    cases c.find? k' <;> simp [hk, Option.filter]

/-- What is left of the queue when a key is removed. -/
theorem queue_remove (c : Cache) (k : CacheKey) :
    (c.remove k).queue = c.queue.filter (·.1 ≠ k) :=
  filterMap_find?_filter_ne fun k' hk => by rw [find?_remove, if_neg hk]

theorem InStep.removeAll (h : InStep c) (keys : List CacheKey) :
    InStep (keys.foldl Cache.remove c) := by
  induction keys generalizing c with
  | nil => exact h
  | cons k rest ih => exact ih (h.remove k)

theorem queue_removeAll (keys : List CacheKey) (c : Cache) :
    (keys.foldl remove c).queue = c.queue.filter (·.1 ∉ keys) := by
  induction keys generalizing c with
  | nil => simp
  | cons k rest ih =>
      rw [List.foldl_cons, ih, queue_remove, List.filter_filter]
      refine List.filter_congr fun p _ => ?_
      simp [Bool.and_comm]

theorem evictOldest_of_nil (horder : c.order = []) : c.evictOldest = c := by
  unfold evictOldest
  rw [horder]

/-- To evict is to remove the first key of the order. -/
theorem InStep.evictOldest_of_cons (h : InStep c) {rest : List CacheKey}
    (horder : c.order = k :: rest) : c.evictOldest = c.remove k := by
  have hnodup := h.nodup
  rw [horder, List.nodup_cons] at hnodup
  have hrest : rest.filter (· ≠ k) = rest :=
    List.filter_eq_self.mpr fun k' hk' => decide_eq_true fun heq => hnodup.1 (heq ▸ hk')
  unfold evictOldest Cache.remove
  rw [horder]
  simp only [List.filter_cons, hrest, ne_eq, not_true_eq_false, decide_false, Bool.false_eq_true,
    if_false]

theorem InStep.evictOldest (h : InStep c) : InStep c.evictOldest := by
  cases horder : c.order with
  | nil => rwa [evictOldest_of_nil horder]
  | cons k rest =>
      rw [h.evictOldest_of_cons horder]
      exact h.remove k

/-- If no entry has the key, there is none to be taken out. -/
theorem filter_ne_eq_self {entries : List (CacheKey × CacheEntry)}
    (h : k ∉ entries.map Prod.fst) : entries.filter (·.1 ≠ k) = entries :=
  List.filter_eq_self.mpr fun _ hp => decide_eq_true fun heq => h (heq ▸ List.mem_map_of_mem hp)

/-- An eviction takes the front of the queue. -/
theorem queue_evictOldest (h : InStep c) : c.evictOldest.queue = c.queue.tail := by
  cases horder : c.order with
  | nil =>
      have hqueue : c.queue = [] := by rw [queue, horder, List.filterMap_nil]
      rw [evictOldest_of_nil horder, hqueue, List.tail_nil]
  | cons k rest =>
      obtain ⟨e, tail, hqueue, htail⟩ := h.queue_eq_cons horder
      have hnodup := h.nodup
      rw [horder, List.nodup_cons, ← htail] at hnodup
      rw [h.evictOldest_of_cons horder, queue_remove, hqueue, List.tail_cons,
        List.filter_cons_of_neg (by simp), filter_ne_eq_self hnodup.1]

theorem InStep.evictMany (h : InStep c) (excess : Nat) : InStep (c.evictMany excess) := by
  induction excess generalizing c with
  | zero => exact h
  | succ n ih => exact ih h.evictOldest

theorem queue_evictMany (h : InStep c) (excess : Nat) :
    (c.evictMany excess).queue = c.queue.drop excess := by
  induction excess generalizing c with
  | zero => rfl
  | succ n ih =>
      change (c.evictOldest.evictMany n).queue = _
      rw [ih h.evictOldest, queue_evictOldest h, List.drop_tail]

/-- No key is there twice after one has moved to the back of the order. -/
theorem nodup_moveToBack {order : List CacheKey} (h : order.Nodup) (k : CacheKey) :
    (order.filter (· ≠ k) ++ [k]).Nodup := by
  refine List.nodup_append.mpr ⟨h.filter _, List.pairwise_singleton _ _, ?_⟩
  intro a ha b hb
  rw [List.mem_singleton.mp hb]
  exact of_decide_eq_true (List.mem_filter.mp ha).2

theorem InStep.enqueue (h : InStep c) (k : CacheKey) (e : CacheEntry) :
    InStep (c.enqueue k e) := by
  refine ⟨nodup_moveToBack h.nodup k, ?_⟩
  change (_ ++ [k]).Perm ((_ ++ [(k, e)]).map Prod.fst)
  rw [List.map_append]
  exact (h.remove k).keys.append_right [k]

/-- What was used last stands at the back of the queue. -/
theorem queue_moveToBack (horder : c'.order = c.order.filter (· ≠ k) ++ [k])
    (hself : c'.find? k = some e) (hother : ∀ k', k' ≠ k → c'.find? k' = c.find? k') :
    c'.queue = c.queue.filter (·.1 ≠ k) ++ [(k, e)] := by
  rw [queue, horder, List.filterMap_append, filterMap_find?_filter_ne hother]
  simp [hself]

theorem queue_enqueue (c : Cache) (k : CacheKey) (e : CacheEntry) :
    (c.enqueue k e).queue = c.queue.filter (·.1 ≠ k) ++ [(k, e)] := by
  refine queue_moveToBack rfl ?_ fun k' hk => ?_
  · rw [find?_enqueue, if_pos rfl]
  · rw [find?_enqueue, if_neg hk]

/-- A key that is there moves to the back of the order. -/
theorem InStep.order_touch (h : InStep c) (hfound : c.find? k = some e) :
    (c.touch k).order = c.order.filter (· ≠ k) ++ [k] := by
  have hmem : k ∈ c.order := h.mem_order_iff.mpr ⟨e, hfound⟩
  unfold touch
  rw [if_pos (List.contains_iff_mem.mpr hmem), h.nodup.erase_eq_filter]
  simp only [ne_eq, decide_not]
  rfl

theorem InStep.touch (h : InStep c) (hfound : c.find? k = some e) : InStep (c.touch k) := by
  have hmem : k ∈ c.order := h.mem_order_iff.mpr ⟨e, hfound⟩
  refine ⟨?_, ?_⟩
  · rw [h.order_touch hfound]
    exact nodup_moveToBack h.nodup k
  · unfold Cache.touch
    rw [if_pos (List.contains_iff_mem.mpr hmem)]
    have hback : (c.order.erase k ++ [k]).Perm (k :: c.order.erase k) :=
      List.perm_append_comm
    exact hback.trans ((List.perm_cons_erase hmem).symm.trans h.keys)

theorem InStep.queue_touch (h : InStep c) (hfound : c.find? k = some e) :
    (c.touch k).queue = c.queue.filter (·.1 ≠ k) ++ [(k, e)] := by
  refine queue_moveToBack (h.order_touch hfound) ?_ fun k' _ => find?_touch c k k'
  rw [find?_touch, hfound]

/-! ## What has expired -/

/-- The entries that have not expired, from the least to the most recently used. -/
def live (c : Cache) (now : Nat) : List (CacheKey × CacheEntry) :=
  c.queue.filter fun p => !c.isExpired now p.2

theorem live_sublist (c : Cache) (now : Nat) : (c.live now).Sublist c.queue :=
  List.filter_sublist

/-- Where something has expired, there are fewer live entries. -/
theorem InStep.length_live_lt (h : InStep c) (hlive : c.live now ≠ c.queue) :
    (c.live now).length < c.size := by
  rw [← h.length_queue]
  exact Nat.lt_of_le_of_ne (live_sublist c now).length_le fun heq =>
    hlive ((live_sublist c now).eq_of_length heq)

theorem mem_expiredKeys (h : InStep c) :
    k ∈ c.expiredKeys now ↔ ∃ e, c.find? k = some e ∧ c.isExpired now e = true := by
  simp only [expiredKeys, List.mem_map, List.mem_filter, Prod.exists, h.find?_eq_some_iff]
  constructor
  · rintro ⟨key, e, ⟨he, hexpired⟩, rfl⟩
    exact ⟨e, he, hexpired⟩
  · rintro ⟨e, he, hexpired⟩
    exact ⟨k, e, ⟨he, hexpired⟩, rfl⟩

theorem InStep.makeRoom (h : InStep c) (now : Nat) : InStep (c.makeRoom now) := by
  unfold Cache.makeRoom
  cases c.expiredKeys now with
  | nil => exact h.evictOldest
  | cons k rest => exact h.removeAll (k :: rest)

/-- Everything in the queue is alive if no key has expired. -/
theorem live_eq_queue_iff (h : InStep c) : c.live now = c.queue ↔ c.expiredKeys now = [] := by
  simp only [live, List.filter_eq_self, List.eq_nil_iff_forall_not_mem, mem_expiredKeys h,
    Prod.forall, h.mem_queue, not_exists, not_and, Bool.not_eq_true, Bool.not_eq_true']

/-- What is left when the expired keys are removed is alive. -/
theorem filter_not_mem_expiredKeys (h : InStep c) :
    c.queue.filter (·.1 ∉ c.expiredKeys now) = c.live now := by
  refine List.filter_congr fun p hp => ?_
  obtain ⟨k, e⟩ := p
  have hfound : c.find? k = some e := h.mem_queue.mp hp
  have hmem : k ∈ c.expiredKeys now ↔ c.isExpired now e = true := by
    simp [mem_expiredKeys h, hfound]
  cases hexpired : c.isExpired now e <;> simp [hmem, hexpired]

/-- If nothing has expired, room is made at the front of the queue. -/
theorem queue_makeRoom_of_live (h : InStep c) (hlive : c.live now = c.queue) :
    (c.makeRoom now).queue = c.queue.tail := by
  unfold makeRoom
  rw [(live_eq_queue_iff h).mp hlive]
  exact queue_evictOldest h

/-- Otherwise all that has expired goes, and nothing else. -/
theorem queue_makeRoom_of_expired (h : InStep c) (hlive : c.live now ≠ c.queue) :
    (c.makeRoom now).queue = c.live now := by
  have hkeys := mt (live_eq_queue_iff h).mpr hlive
  unfold makeRoom
  cases hexpired : c.expiredKeys now with
  | nil => exact absurd hexpired hkeys
  | cons k rest =>
      dsimp only
      rw [queue_removeAll, ← hexpired, filter_not_mem_expiredKeys h]

end CodeFence.Cache
