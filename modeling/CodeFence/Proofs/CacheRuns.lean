import CodeFence.Proofs.CacheQueue

/-!
# Runs of a cache

A cache that was empty at first is used by one call after another, each at some
time.  Nothing is asked of the keys, the entries and the times: a key need not
be that of the source, and two sources may share one.

* `WellFormed` — the order of use and the entries are in step, and there are
  never more entries than the capacity allows; every call keeps it
  (`WellFormed.step`), and so does every run;
* `find?_run` — what is found after a run was put there by the last call that
  touched its key, and the cache was not cleared since;
* `exists_put_of_get_run` — a hit is that put, of the same source, in time.
-/

namespace CodeFence.Cache

open Markup

variable {c : Cache} {k : CacheKey} {e : CacheEntry} {now : Nat}

/-- A use of a cache at some time. -/
inductive Access where
  | put (k : CacheKey) (e : CacheEntry) (now : Nat)
  | get (k : CacheKey) (code : String) (now : Nat)

/-- When the use takes place. -/
def Access.time : Access → Nat
  | .put _ _ now => now
  | .get _ _ now => now

/-- A call of a cache. -/
inductive Call where
  | access (a : Access)
  | clear
  | setCapacity (capacity : Nat)

/-- The cache after a use. -/
def access (c : Cache) : Access → Cache
  | .put k e now => c.put k e now
  | .get k code now => (c.get k code now).2

/-- The cache after a call. -/
def step (c : Cache) : Call → Cache
  | .access a => c.access a
  | .clear => c.clear
  | .setCapacity capacity => c.setCapacity capacity

/-- The cache after calls, first to last. -/
def run (c : Cache) (calls : List Call) : Cache :=
  calls.foldl step c

/-! ## The capacity -/

@[simp] theorem capacity_remove (c : Cache) (k : CacheKey) :
    (c.remove k).capacity = c.capacity := rfl

@[simp] theorem capacity_touch (c : Cache) (k : CacheKey) :
    (c.touch k).capacity = c.capacity := by
  unfold touch
  split <;> rfl

@[simp] theorem capacity_evictOldest (c : Cache) : c.evictOldest.capacity = c.capacity := by
  unfold evictOldest
  split <;> rfl

@[simp] theorem capacity_evictMany (c : Cache) (excess : Nat) :
    (c.evictMany excess).capacity = c.capacity := by
  induction excess generalizing c with
  | zero => rfl
  | succ n ih => exact (ih c.evictOldest).trans (capacity_evictOldest c)

theorem capacity_removeAll (keys : List CacheKey) (c : Cache) :
    (keys.foldl remove c).capacity = c.capacity := by
  induction keys generalizing c with
  | nil => rfl
  | cons k rest ih => exact ih (c.remove k)

@[simp] theorem capacity_makeRoom (c : Cache) (now : Nat) :
    (c.makeRoom now).capacity = c.capacity := by
  unfold makeRoom
  split
  · exact capacity_evictOldest c
  · exact capacity_removeAll _ c

@[simp] theorem capacity_put (c : Cache) (k : CacheKey) (e : CacheEntry) (now : Nat) :
    (c.put k e now).capacity = c.capacity := by
  rcases withRoom_cases c k now with ⟨hroom, -⟩ | ⟨hroom, -, -⟩ <;>
    simp [put_eq_enqueue, enqueue, hroom]

@[simp] theorem capacity_get (c : Cache) (k : CacheKey) (code : String) (now : Nat) :
    (c.get k code now).2.capacity = c.capacity := by
  rcases get_cases c k code now with ⟨hget, -⟩ | ⟨e, hget, -⟩ | ⟨e, hget, -⟩ <;> simp [hget]

@[simp] theorem capacity_access (c : Cache) (a : Access) :
    (c.access a).capacity = c.capacity := by
  cases a with
  | put k e now => exact capacity_put c k e now
  | get k code now => exact capacity_get c k code now

@[simp] theorem capacity_setCapacity (c : Cache) (capacity : Nat) :
    (c.setCapacity capacity).capacity = max capacity 1 :=
  capacity_evictMany _ _

/-! ## The invariant -/

/-- A cache in which the order of use and the entries are in step, and which
holds no more than it may. -/
structure WellFormed (c : Cache) : Prop extends InStep c where
  capacity : 1 ≤ c.capacity
  size : c.size ≤ c.capacity

theorem wellFormed_empty (capacity lifetime : Nat) : WellFormed (empty capacity lifetime) :=
  ⟨inStep_empty capacity lifetime, Nat.le_max_right capacity 1, Nat.zero_le _⟩

theorem InStep.withRoom (h : InStep c) (k : CacheKey) (now : Nat) :
    InStep (c.withRoom k now) := by
  rcases withRoom_cases c k now with ⟨hroom, -⟩ | ⟨hroom, -, -⟩ <;> rw [hroom]
  · exact h
  · exact h.makeRoom now

/-- Making room drops something. -/
theorem InStep.length_queue_makeRoom_lt (h : InStep c) (now : Nat) (hsome : 0 < c.queue.length) :
    (c.makeRoom now).queue.length < c.queue.length := by
  by_cases hlive : c.live now = c.queue
  · rw [queue_makeRoom_of_live h hlive, List.length_tail]
    omega
  · rw [queue_makeRoom_of_expired h hlive, h.length_queue]
    exact h.length_live_lt hlive

namespace WellFormed

/-- Where an entry is put, there is a place for it. -/
theorem length_withRoom_lt (h : WellFormed c) (k : CacheKey) (now : Nat) :
    ((c.withRoom k now).queue.filter (·.1 ≠ k)).length < c.capacity := by
  have hlength := h.length_queue
  have hsize := h.size
  have hcapacity := h.capacity
  rcases withRoom_cases c k now with ⟨hroom, ⟨e, hfound⟩ | hfree⟩ | ⟨hroom, -, hfull⟩ <;>
    rw [hroom]
  · exact Nat.lt_of_lt_of_le (h.length_filter_ne_lt hfound) hsize
  · have hle := List.length_filter_le (·.1 ≠ k) c.queue
    omega
  · have hle := List.length_filter_le (·.1 ≠ k) (c.makeRoom now).queue
    have hlt := h.length_queue_makeRoom_lt now (by omega)
    omega

theorem put (h : WellFormed c) (k : CacheKey) (e : CacheEntry) (now : Nat) :
    WellFormed (c.put k e now) := by
  have hstep : InStep (c.put k e now) := (h.withRoom k now).enqueue k e
  have hplace := h.length_withRoom_lt k now
  refine ⟨hstep, ?_, ?_⟩
  · rw [capacity_put]
    exact h.capacity
  · rw [← hstep.length_queue, capacity_put, put_eq_enqueue, queue_enqueue, List.length_append,
      List.length_singleton]
    omega

/-- What only loses entries stays well-formed. -/
theorem of_queue_length_le {c' : Cache} (h : WellFormed c) (hstep : InStep c')
    (hcapacity : c'.capacity = c.capacity) (hqueue : c'.queue.length ≤ c.queue.length) :
    WellFormed c' := by
  have hsize := h.size
  rw [h.length_queue, hstep.length_queue] at hqueue
  refine ⟨hstep, ?_, ?_⟩
  · rw [hcapacity]
    exact h.capacity
  · omega

theorem get (h : WellFormed c) (k : CacheKey) (code : String) (now : Nat) :
    WellFormed (c.get k code now).2 := by
  rcases get_cases c k code now with ⟨hget, -⟩ | ⟨e, hget, -, -⟩ | ⟨e, hget, hfound, -, -, -⟩ <;>
    rw [hget]
  · exact h
  · refine h.of_queue_length_le (h.remove k) rfl ?_
    rw [queue_remove]
    exact List.length_filter_le _ _
  · refine h.of_queue_length_le (h.touch hfound) (capacity_touch c k) ?_
    rw [h.queue_touch hfound, List.length_append, List.length_singleton, h.length_queue]
    exact h.length_filter_ne_lt hfound

theorem access (h : WellFormed c) (a : Access) : WellFormed (c.access a) := by
  cases a with
  | put k e now => exact h.put k e now
  | get k code now => exact h.get k code now

end WellFormed

/-- A new capacity leaves the back of the queue. -/
theorem queue_setCapacity (h : InStep c) (capacity : Nat) :
    (c.setCapacity capacity).queue = c.queue.drop (c.size - max capacity 1) :=
  queue_evictMany (h.resize (max capacity 1)) _

theorem InStep.setCapacity (h : InStep c) (capacity : Nat) : InStep (c.setCapacity capacity) :=
  (h.resize (max capacity 1)).evictMany _

namespace WellFormed

theorem setCapacity (h : InStep c) (capacity : Nat) : WellFormed (c.setCapacity capacity) := by
  have hstep := h.setCapacity capacity
  refine ⟨hstep, ?_, ?_⟩
  · rw [capacity_setCapacity]
    exact Nat.le_max_right capacity 1
  · rw [← hstep.length_queue, queue_setCapacity h, List.length_drop, h.length_queue,
      capacity_setCapacity]
    omega

/-- **Step lemma.**  Every call leaves a well-formed cache. -/
theorem step (h : WellFormed c) (call : Call) : WellFormed (c.step call) := by
  cases call with
  | access a => exact h.access a
  | clear => exact ⟨inStep_clear c, h.capacity, Nat.zero_le _⟩
  | setCapacity capacity => exact setCapacity h.toInStep capacity

theorem run (h : WellFormed c) (calls : List Call) : WellFormed (c.run calls) := by
  induction calls generalizing c with
  | nil => exact h
  | cons call rest ih => exact ih (h.step call)

end WellFormed

/-- The capacity that was asked for last. -/
def askedCapacity (capacity : Nat) (calls : List Call) : Nat :=
  calls.foldl (fun asked call =>
    match call with
    | .setCapacity capacity => capacity
    | _ => asked) capacity

theorem capacity_run {asked : Nat} (hasked : c.capacity = max asked 1) (calls : List Call) :
    (c.run calls).capacity = max (askedCapacity asked calls) 1 := by
  induction calls generalizing c asked with
  | nil => exact hasked
  | cons call rest ih =>
      cases call with
      | access a => exact ih ((capacity_access c a).trans hasked)
      | clear => exact ih hasked
      | setCapacity capacity => exact ih (capacity_setCapacity c capacity)

/-- **The representation invariant.**  After any calls of an empty cache, with
any keys, entries and times: the order of use names the key of each entry once
and no other key, the capacity is the one that was asked for last and at least
one, and there are never more entries. -/
theorem order_run_perm_keys (capacity lifetime : Nat) (calls : List Call) :
    let c := (empty capacity lifetime).run calls
    c.order.Nodup ∧ c.order.Perm (c.entries.map Prod.fst) ∧
      c.capacity = max (askedCapacity capacity calls) 1 ∧ 1 ≤ c.capacity ∧
      c.size ≤ c.capacity := by
  intro c
  have hrun : WellFormed c := (wellFormed_empty capacity lifetime).run calls
  have hcapacity : c.capacity = max (askedCapacity capacity calls) 1 := capacity_run rfl calls
  exact ⟨hrun.nodup, hrun.keys, hcapacity, hrun.capacity, hrun.size⟩

/-! ## Where a hit comes from -/

/-- The call leaves nothing of what was under the key before. -/
def Call.Replaces (k : CacheKey) : Call → Prop
  | .access (.put k' _ _) => k' = k
  | .access (.get _ _ _) => False
  | .clear => True
  | .setCapacity _ => False

/-- **Step lemma.**  An entry that is found after a call was put by this call,
or it was there before and the call does not touch its key. -/
theorem find?_step {call : Call} (h : (c.step call).find? k = some e) :
    (∃ now, call = .access (.put k e now)) ∨ (¬ call.Replaces k ∧ c.find? k = some e) := by
  cases call with
  | clear => cases h
  | setCapacity capacity =>
      exact Or.inr ⟨id, (within_setCapacity c capacity).find? k e h⟩
  | access a =>
      cases a with
      | get k' code now => exact Or.inr ⟨id, (within_get c k' code now).find? k e h⟩
      | put k' e' now =>
          change (c.put k' e' now).find? k = some e at h
          by_cases hk : k = k'
          · subst hk
            rw [find?_put_self] at h
            cases h
            exact Or.inl ⟨now, rfl⟩
          · exact Or.inr ⟨Ne.symm hk, find?_put_other hk h⟩

/-- **Run lemma.**  What is found after a run was there before and no call
touched its key, or it was put there by the last call that did. -/
theorem find?_run {calls : List Call} (h : (c.run calls).find? k = some e) :
    ((∀ call ∈ calls, ¬ call.Replaces k) ∧ c.find? k = some e) ∨
      ∃ before made after, calls = before ++ .access (.put k e made) :: after ∧
        ∀ call ∈ after, ¬ call.Replaces k := by
  -- The last put of the rest decides; if there is none, the first call may have put the entry.
  induction calls generalizing c with
  | nil => exact Or.inl ⟨List.forall_mem_nil _, h⟩
  | cons call rest ih =>
      rcases ih h with ⟨hrest, hfound⟩ | ⟨before, made, after, rfl, hafter⟩
      · rcases find?_step hfound with ⟨made, rfl⟩ | ⟨hcall, hbefore⟩
        · exact Or.inr ⟨[], made, rest, rfl, hrest⟩
        · exact Or.inl ⟨List.forall_mem_cons.mpr ⟨hcall, hrest⟩, hbefore⟩
      · exact Or.inr ⟨call :: before, made, after, rfl, hafter⟩

theorem lifetime_step (c : Cache) (call : Call) : (c.step call).lifetime = c.lifetime := by
  cases call with
  | clear => rfl
  | setCapacity capacity => exact (within_setCapacity c capacity).lifetime
  | access a =>
      cases a with
      | get k code now => exact (within_get c k code now).lifetime
      | put k e now => exact lifetime_put c k e now

theorem lifetime_run (c : Cache) (calls : List Call) : (c.run calls).lifetime = c.lifetime := by
  induction calls generalizing c with
  | nil => rfl
  | cons call rest ih => exact (ih (c.step call)).trans (lifetime_step c call)

/-- **Sound hits.**  If a look after any calls of an empty cache finds a
document, then it is the one of the last entry that was put under the key, the
cache was not cleared since, the entry was made of the very source that is
looked for, and it is younger than its lifetime: that of the cache, and for a
fallback rendering five minutes at most.  The times need not be in order. -/
theorem exists_put_of_get_run {capacity lifetime : Nat} {calls : List Call} {code : String}
    {d : Document} (h : (((empty capacity lifetime).run calls).get k code now).1 = some d) :
    ∃ before e made after, calls = before ++ .access (.put k e made) :: after ∧
      (∀ call ∈ after, ¬ call.Replaces k) ∧ e.document = d ∧ e.source = code ∧
      now - e.created <
        if e.isFallback then min lifetime (5 * 60 * 1000) else lifetime := by
  obtain ⟨e, hfound, halive, -, hsource, hdocument⟩ := get_eq_some_iff.mp h
  have hlifetime : ((empty capacity lifetime).run calls).lifetime = lifetime :=
    lifetime_run (empty capacity lifetime) calls
  have hage : now - e.created <
      if e.isFallback then min lifetime (5 * 60 * 1000) else lifetime := by
    have hnot := of_decide_eq_false halive
    rw [lifetimeOf, hlifetime] at hnot
    exact Nat.lt_of_not_le hnot
  rcases find?_run hfound with ⟨-, hempty⟩ | ⟨before, made, after, hcalls, hafter⟩
  · cases hempty
  · exact ⟨before, e, made, after, hcalls, hafter, hdocument, hsource, hage⟩

/-- Two sources with one hash: the second one takes the place of the first,
which is no longer found, and lives almost five minutes. -/
theorem exists_put_of_get_run_collision :
    let k := CacheKey.of "Aa" "text" "dark-plus"
    let first := CacheEntry.of (.plain "Aa") "Aa" false 0
    let second := CacheEntry.of (.plain "BB") "BB" true 10
    let calls : List Call := [.access (.put k first 0), .access (.put k second 10),
      .access (.get k "Aa" 20), .setCapacity 1]
    (((empty 2 3600000).run calls).get k "BB" 300009).1 = some (.plain "BB") ∧
      ∃ before e made after, calls = before ++ .access (.put k e made) :: after ∧
        (∀ call ∈ after, ¬ call.Replaces k) ∧ e.document = .plain "BB" ∧ e.source = "BB" ∧
        300009 - e.created <
          if e.isFallback then min 3600000 (5 * 60 * 1000) else 3600000 := by
  intro k first second calls
  have hfound : (((empty 2 3600000).run calls).get k "BB" 300009).1 = some (.plain "BB") := by
    rfl
  exact ⟨hfound, exists_put_of_get_run hfound⟩

end CodeFence.Cache
