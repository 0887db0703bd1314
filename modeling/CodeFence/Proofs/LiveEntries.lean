import CodeFence.Proofs.CacheRuns

/-!
# The live entries of a cache

Expired entries linger in a cache until something drops them, and they take up
room meanwhile.  Still they never matter: what a use does to the entries that
are alive depends only on these.

* `Holds` — there is an entry under the key and it has not expired;
* `live_later` — as time goes by, live entries only get fewer;
* `live_get` — a look that finds something moves it to the back, and any other
  look leaves the live entries as they are;
* `live_put` — a put drops a live entry only if its key is new and the live
  entries alone fill the cache, and then it is the first one;
* `InTime` — uses one after another, while time does not run back;
* `Alike` — two caches with the same live entries; every use keeps them so
  (`Alike.accessAll`).
-/

namespace CodeFence.Cache

variable {c c' : Cache} {k : CacheKey} {e : CacheEntry} {now later : Nat}

/-- There is an entry under the key, and it has not expired. -/
def Holds (c : Cache) (now : Nat) (k : CacheKey) (e : CacheEntry) : Prop :=
  c.find? k = some e ∧ c.isExpired now e = false

theorem InStep.mem_live (h : InStep c) : (k, e) ∈ c.live now ↔ c.Holds now k e := by
  simp [live, Holds, h.mem_queue]

theorem InStep.length_live_le (h : InStep c) (now : Nat) : (c.live now).length ≤ c.size := by
  rw [← h.length_queue]
  exact (live_sublist c now).length_le

/-- Entries expire by the lifetime alone. -/
theorem isExpired_congr (h : c'.lifetime = c.lifetime) (now : Nat) (e : CacheEntry) :
    c'.isExpired now e = c.isExpired now e := by
  unfold isExpired lifetimeOf
  rw [h]

theorem live_eq_filter (h : c'.lifetime = c.lifetime) (now : Nat) :
    c'.live now = c'.queue.filter fun p => !c.isExpired now p.2 := by
  simp only [live, isExpired_congr h]

/-- An entry that is alive later is alive now. -/
theorem isExpired_eq_false_of_le (hle : now ≤ later) (h : c.isExpired later e = false) :
    c.isExpired now e = false := by
  cases hnow : c.isExpired now e with
  | false => rfl
  | true => rw [isExpired_mono hle hnow] at h; cases h

/-- As time goes by, live entries only get fewer. -/
theorem live_later (c : Cache) (hle : now ≤ later) :
    c.live later = (c.live now).filter fun p => !c.isExpired later p.2 := by
  rw [live, live, List.filter_filter]
  refine List.filter_congr fun p _ => ?_
  cases hlater : c.isExpired later p.2 with
  | true => rfl
  | false => rw [isExpired_eq_false_of_le hle hlater]; rfl

/-- What is alive stays alive when a key is removed that is not. -/
theorem InStep.live_remove (h : InStep c) (hfound : c.find? k = some e)
    (hexpired : c.isExpired now e = true) : (c.remove k).live now = c.live now := by
  have hlifetime : (c.remove k).lifetime = c.lifetime := rfl
  rw [live_eq_filter hlifetime, queue_remove, live, List.filter_filter]
  refine List.filter_congr fun p hp => ?_
  obtain ⟨key, entry⟩ := p
  by_cases hk : key = k
  · subst hk
    have hsame : entry = e := h.queue_unique hp (h.mem_queue.mpr hfound)
    simp [hsame, hexpired]
  · simp [hk]

/-- **A look and the live entries.**  A look that finds something moves it to
the back of the live entries; any other look leaves them as they are. -/
theorem live_get (h : InStep c) (k : CacheKey) (code : String) (now : Nat) :
    (∃ e, (k, e) ∈ c.live now ∧ (e.hash = k.hash ∧ e.source = code) ∧
        (c.get k code now).1 = some e.document ∧
        (c.get k code now).2.live now = (c.live now).filter (·.1 ≠ k) ++ [(k, e)]) ∨
      ((∀ e, (k, e) ∈ c.live now → ¬ (e.hash = k.hash ∧ e.source = code)) ∧
        (c.get k code now).1 = none ∧ (c.get k code now).2.live now = c.live now) := by
  simp only [h.mem_live]
  rcases get_cases c k code now with
    ⟨hget, hmiss⟩ | ⟨e, hget, hfound, hexpired⟩ | ⟨e, hget, hfound, halive, hmatch⟩ <;>
    rw [hget]
  · exact Or.inr ⟨fun e he => (hmiss e he.1).2, rfl, rfl⟩
  · refine Or.inr ⟨fun e' he' => ?_, rfl, h.live_remove hfound hexpired⟩
    obtain ⟨hfound', halive'⟩ := he'
    rw [hfound] at hfound'
    cases hfound'
    rw [hexpired] at halive'
    cases halive'
  · refine Or.inl ⟨e, ⟨hfound, halive⟩, hmatch, rfl, ?_⟩
    have hlifetime : (c.touch k).lifetime = c.lifetime := (within_touch c k).lifetime
    rw [live_eq_filter hlifetime, h.queue_touch hfound, List.filter_append, live,
      List.filter_filter, List.filter_filter]
    simp only [Bool.and_comm, List.filter_cons, halive, Bool.not_false, if_true, List.filter_nil]

/-- The live entries that a put leaves beside its own: without the one under
its key or, if there is none and they fill the cache, without the first. -/
def survivors (capacity : Nat) (k : CacheKey) (live : List (CacheKey × CacheEntry)) :
    List (CacheKey × CacheEntry) :=
  if live.length < capacity ∨ k ∈ live.map Prod.fst then live.filter (·.1 ≠ k) else live.tail

theorem InStep.not_mem_live (h : InStep c) (hnew : c.find? k = none) :
    k ∉ (c.live now).map Prod.fst := by
  intro hk
  obtain ⟨⟨key, e⟩, he, rfl⟩ := List.mem_map.mp hk
  rw [(h.mem_live.mp he).1] at hnew
  cases hnew

/-- Where a put finds a place, the live entries do not fill the cache, or its
key is among theirs. -/
theorem WellFormed.length_live_lt_or_mem (h : WellFormed c)
    (hplace : (∃ e, c.find? k = some e) ∨ c.size < c.capacity) :
    (c.live now).length < c.capacity ∨ k ∈ (c.live now).map Prod.fst := by
  have hsize := h.size
  have hle := h.length_live_le now
  rcases hplace with ⟨e, hfound⟩ | hfree
  · by_cases hlive : c.live now = c.queue
    · rw [hlive]
      exact Or.inr (List.mem_map.mpr ⟨(k, e), h.mem_queue.mpr hfound, rfl⟩)
    · have hlt := h.length_live_lt hlive
      exact Or.inl (by omega)
  · exact Or.inl (by omega)

/-- **Making room, seen by the live entries.**  Expired ones hide whether room
is made at all, but not what is left of the others. -/
theorem WellFormed.live_withRoom (h : WellFormed c) (k : CacheKey) (now : Nat) :
    ((c.withRoom k now).live now).filter (·.1 ≠ k) = survivors c.capacity k (c.live now) := by
  have hsize := h.size
  have halive : ∀ p ∈ c.live now, (!c.isExpired now p.2) = true :=
    fun p hp => (List.mem_filter.mp hp).2
  rcases withRoom_cases c k now with ⟨hroom, hplace⟩ | ⟨hroom, hnew, hfull⟩
  · rw [hroom, survivors, if_pos (h.length_live_lt_or_mem hplace)]
  · have hlifetime : (c.makeRoom now).lifetime = c.lifetime := (within_makeRoom c now).lifetime
    have hnone : k ∉ (c.live now).map Prod.fst := h.not_mem_live hnew
    rw [hroom, live_eq_filter hlifetime]
    by_cases hlive : c.live now = c.queue
    · -- Everything is alive: the first one goes.
      have hfills : ¬ ((c.live now).length < c.capacity ∨ k ∈ (c.live now).map Prod.fst) := by
        rw [← h.length_queue, ← hlive] at hfull
        exact not_or.mpr ⟨Nat.not_lt.mpr hfull, hnone⟩
      have htail : k ∉ (c.live now).tail.map Prod.fst := by
        rw [List.map_tail]
        exact fun hk => hnone (List.mem_of_mem_tail hk)
      rw [queue_makeRoom_of_live h.toInStep hlive, survivors, if_neg hfills, ← hlive,
        List.filter_eq_self.mpr fun p hp => halive p (List.mem_of_mem_tail hp),
        filter_ne_eq_self htail]
    · -- Something has expired: it goes, and the live ones are left.
      have hlt := h.length_live_lt hlive
      rw [queue_makeRoom_of_expired h.toInStep hlive, survivors, if_pos (Or.inl (by omega)),
        List.filter_eq_self.mpr halive]

/-- **A put and the live entries.**  Beside the survivors there is the new entry,
unless it has expired already. -/
theorem WellFormed.live_put (h : WellFormed c) (k : CacheKey) (e : CacheEntry) (now : Nat) :
    (c.put k e now).live now =
      survivors c.capacity k (c.live now) ++ [(k, e)].filter fun p => !c.isExpired now p.2 := by
  have hroom : (c.withRoom k now).lifetime = c.lifetime := (within_withRoom c k now).lifetime
  have hcommute : ((c.withRoom k now).queue.filter (·.1 ≠ k)).filter
        (fun p => !c.isExpired now p.2) =
      ((c.withRoom k now).live now).filter (·.1 ≠ k) := by
    rw [live_eq_filter hroom, List.filter_filter, List.filter_filter]
    exact List.filter_congr fun p _ => Bool.and_comm _ _
  rw [live_eq_filter (lifetime_put c k e now), put_eq_enqueue, queue_enqueue, List.filter_append,
    hcommute, h.live_withRoom]

/-! ## Caches that are alike -/

theorem lifetime_access (c : Cache) (a : Access) : (c.access a).lifetime = c.lifetime :=
  lifetime_step c (.access a)

/-- The cache after uses, first to last. -/
def accessAll (c : Cache) (accesses : List Access) : Cache :=
  accesses.foldl access c

/-- Time does not run back from a start through some uses to an end. -/
def InTime (start : Nat) : List Access → Nat → Prop
  | [], finish => start ≤ finish
  | a :: rest, finish => start ≤ a.time ∧ InTime a.time rest finish

theorem InTime.le {accesses : List Access} {start finish : Nat}
    (h : InTime start accesses finish) : start ≤ finish := by
  induction accesses generalizing start with
  | nil => exact h
  | cons a rest ih => exact Nat.le_trans h.1 (ih h.2)

/-- Two caches with the same bounds and, from now on, the same live entries,
used in the same order.  Which expired entries linger in them may differ. -/
structure Alike (now : Nat) (c c' : Cache) : Prop where
  left : WellFormed c
  right : WellFormed c'
  capacity : c'.capacity = c.capacity
  lifetime : c'.lifetime = c.lifetime
  live : c'.live now = c.live now

namespace Alike

theorem mono (h : Alike now c c') (hle : now ≤ later) : Alike later c c' := by
  refine ⟨h.left, h.right, h.capacity, h.lifetime, ?_⟩
  rw [live_later c' hle, live_later c hle, h.live]
  simp only [isExpired_congr h.lifetime]

theorem holds_iff (h : Alike now c c') : c'.Holds now k e ↔ c.Holds now k e := by
  rw [← h.right.mem_live, h.live, h.left.mem_live]

theorem live_put (h : Alike now c c') (k : CacheKey) (e : CacheEntry) :
    (c'.put k e now).live now = (c.put k e now).live now := by
  rw [h.right.live_put, h.left.live_put, h.capacity, h.live]
  simp only [isExpired_congr h.lifetime]

theorem live_get (h : Alike now c c') (k : CacheKey) (code : String) :
    (c'.get k code now).2.live now = (c.get k code now).2.live now := by
  rcases Cache.live_get h.left.toInStep k code now with
      ⟨e, he, hmatch, -, hhit⟩ | ⟨hnone, -, hmiss⟩ <;>
    rcases Cache.live_get h.right.toInStep k code now with
      ⟨e', he', hmatch', -, hhit'⟩ | ⟨hnone', -, hmiss'⟩
  · -- Both find something: it is the same entry, as the live entries are the same.
    rw [h.live] at he'
    have hsame : e = e' := h.left.queue_unique ((live_sublist c now).subset he)
      ((live_sublist c now).subset he')
    rw [hhit, hhit', h.live, hsame]
  · rw [h.live] at hnone'
    exact absurd hmatch (hnone' e he)
  · rw [h.live] at he'
    exact absurd hmatch' (hnone e' he')
  · rw [hmiss, hmiss', h.live]

/-- **Step lemma.**  Every use leaves alike caches alike. -/
theorem access {a : Access} (h : Alike a.time c c') :
    Alike a.time (c.access a) (c'.access a) := by
  refine ⟨h.left.access a, h.right.access a, ?_, ?_, ?_⟩
  · rw [capacity_access, capacity_access, h.capacity]
  · rw [lifetime_access, lifetime_access, h.lifetime]
  · cases a with
    | put k e now => exact h.live_put k e
    | get k code now => exact h.live_get k code

/-- **Run lemma.**  While time does not run back, uses leave alike caches
alike. -/
theorem accessAll {accesses : List Access} {start finish : Nat} (h : Alike start c c')
    (htimes : InTime start accesses finish) :
    Alike finish (c.accessAll accesses) (c'.accessAll accesses) := by
  induction accesses generalizing start c c' with
  | nil => exact h.mono htimes
  | cons a rest ih => exact ih (h.mono htimes.1).access htimes.2

end Alike

/-- A look that finds nothing leaves a cache that is alike. -/
theorem WellFormed.alike_of_miss (h : WellFormed c) {code : String}
    (hmiss : (c.get k code now).1 = none) : Alike now c (c.get k code now).2 := by
  refine ⟨h, h.get k code now, capacity_get c k code now, (within_get c k code now).lifetime, ?_⟩
  rcases live_get h.toInStep k code now with ⟨e, -, -, hhit, -⟩ | ⟨-, -, hsame⟩
  · rw [hmiss] at hhit
    cases hhit
  · exact hsame

end CodeFence.Cache
