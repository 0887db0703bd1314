import Mathlib.Data.List.Dedup
import CodeFence.Proofs.LiveEntries

/-!
# What stays in a cache

A cache drops an entry that is still alive only for want of room, and then the
one that was used least recently.  So an entry is safe as long as fewer other
keys than there are places have been used since its own last use.

* `usedBy` — the keys that are really used by a sequence of uses: those that
  are put, and those that a look finds;
* `Recent` — an entry is in the queue, and behind it there are only keys out of
  some list: those that have been used since;
* `recent_access`, `recent_accessAll` — further uses keep this as long as they
  use fewer keys than there are places;
* `holds_of_recent_use` — the guarantee, and that a look that finds nothing
  does not matter for what stays;
* `get_of_recent_use` — when a look for the source always finds it.
-/

namespace CodeFence.Cache

open Markup

variable {c : Cache} {k k' : CacheKey} {e : CacheEntry} {now : Nat}

/-- The keys that a use uses: the one of a put, and the one of a look that
finds something. -/
def used (c : Cache) : Access → List CacheKey
  | .put k _ _ => [k]
  | .get k code now => if (c.get k code now).1.isSome then [k] else []

/-- The keys that are used by one use after another. -/
def usedBy (c : Cache) : List Access → List CacheKey
  | [] => []
  | a :: rest => c.used a ++ (c.access a).usedBy rest

theorem used_of_hit {code : String} {d : Document} (h : (c.get k code now).1 = some d) :
    c.used (.get k code now) = [k] := by
  rw [used, h]
  rfl

theorem used_of_miss {code : String} (h : (c.get k code now).1 = none) :
    c.used (.get k code now) = [] := by
  rw [used, h]
  rfl

/-! ## Places in a queue -/

/-- The entry is in the queue, and whatever is behind it has one of the keys. -/
def Recent (queue : List (CacheKey × CacheEntry)) (k : CacheKey) (e : CacheEntry)
    (keys : List CacheKey) : Prop :=
  ∃ front behind, queue = front ++ (k, e) :: behind ∧ behind.map Prod.fst ⊆ keys

namespace Recent

variable {queue : List (CacheKey × CacheEntry)} {keys : List CacheKey}

theorem mem (h : Recent queue k e keys) : (k, e) ∈ queue := by
  obtain ⟨front, behind, rfl, -⟩ := h
  exact List.mem_append_right front List.mem_cons_self

/-- Others may leave the queue. -/
theorem filter (h : Recent queue k e keys) {keep : CacheKey × CacheEntry → Bool}
    (hkeep : keep (k, e) = true) : Recent (queue.filter keep) k e keys := by
  obtain ⟨front, behind, rfl, hbehind⟩ := h
  refine ⟨front.filter keep, behind.filter keep, ?_, ?_⟩
  · rw [List.filter_append, List.filter_cons_of_pos hkeep]
  · have hsub : (behind.filter keep).map Prod.fst ⊆ behind.map Prod.fst :=
      (List.filter_sublist.map Prod.fst).subset
    exact List.Subset.trans hsub hbehind

/-- What comes to the back is behind the entry. -/
theorem append (h : Recent queue k e keys) {last : List (CacheKey × CacheEntry)}
    (hlast : last.map Prod.fst ⊆ [k']) : Recent (queue ++ last) k e (keys ++ [k']) := by
  obtain ⟨front, behind, rfl, hbehind⟩ := h
  refine ⟨front, behind ++ last, by rw [List.append_assoc, List.cons_append], ?_⟩
  rw [List.map_append]
  exact List.append_subset.mpr ⟨List.subset_append_of_subset_left _ hbehind,
    List.subset_append_of_subset_right _ hlast⟩

/-- **Who is first.**  If a new key comes and the entry is the first of the
queue, then as many keys as the queue is long have been used since. -/
theorem tail (h : Recent queue k e keys) (hnodup : (queue.map Prod.fst).Nodup)
    (hnew : k' ∉ queue.map Prod.fst)
    (hfew : (keys ++ [k']).dedup.length < queue.length) : Recent queue.tail k e keys := by
  obtain ⟨front, behind, rfl, hbehind⟩ := h
  cases front with
  | cons first front => exact ⟨front, behind, rfl, hbehind⟩
  | nil =>
      -- All that stands behind the entry has been used since, and so has the new key.
      have hkeys : (k' :: behind.map Prod.fst).Nodup := by
        rw [List.nil_append, List.map_cons] at hnodup hnew
        exact List.nodup_cons.mpr
          ⟨fun hk => hnew (List.mem_cons_of_mem k hk), (List.nodup_cons.mp hnodup).2⟩
      have hsub : k' :: behind.map Prod.fst ⊆ (keys ++ [k']).dedup := by
        intro key hkey
        refine List.mem_dedup.mpr ?_
        rcases List.mem_cons.mp hkey with rfl | hkey
        · exact List.mem_append_right keys List.mem_cons_self
        · exact List.mem_append_left _ (hbehind hkey)
      have hlength := hkeys.length_le_of_subset hsub
      rw [List.length_cons, List.length_map] at hlength
      rw [List.nil_append, List.length_cons] at hfew
      omega

/-- A put leaves the entry while fewer keys than there are places are used. -/
theorem survivors (h : Recent queue k e keys) {capacity : Nat}
    (hnodup : (queue.map Prod.fst).Nodup) (hk : k ≠ k')
    (hfew : (keys ++ [k']).dedup.length < capacity) :
    Recent (survivors capacity k' queue) k e keys := by
  unfold Cache.survivors
  split
  · exact h.filter (decide_eq_true hk)
  · next hfull =>
      rw [not_or, Nat.not_lt] at hfull
      exact h.tail hnodup hfull.2 (by omega)

end Recent

/-! ## Uses -/

variable {keys : List CacheKey}

theorem InStep.nodup_live (h : InStep c) (now : Nat) : ((c.live now).map Prod.fst).Nodup :=
  ((live_sublist c now).map Prod.fst).nodup h.nodup_queue

/-- What was put just now, and is alive, is behind all others. -/
theorem WellFormed.recent_put (h : WellFormed c) (k : CacheKey)
    (halive : c.isExpired now e = false) : Recent ((c.put k e now).live now) k e [] := by
  refine ⟨Cache.survivors c.capacity k (c.live now), [], ?_, List.nil_subset _⟩
  rw [h.live_put]
  simp [halive]

/-- What a look found just now has the hash of its key, and is the last in the queue. -/
theorem WellFormed.live_of_hit (h : WellFormed c) {code : String}
    (hhit : (c.get k code now).1.isSome = true)
    (hentry : (c.get k code now).2.find? k = some e) :
    e.hash = k.hash ∧
      (c.get k code now).2.live now = (c.live now).filter (·.1 ≠ k) ++ [(k, e)] := by
  rcases live_get h.toInStep k code now with ⟨e', -, ⟨hhash, -⟩, -, hlive⟩ | ⟨-, hmiss, -⟩
  · have hstep : InStep (c.get k code now).2 := (h.get k code now).toInStep
    have hmem : (k, e') ∈ (c.get k code now).2.live now := by
      rw [hlive]
      exact List.mem_append_right _ List.mem_cons_self
    obtain rfl : e' = e := Option.some.inj ((hstep.mem_live.mp hmem).1.symm.trans hentry)
    exact ⟨hhash, hlive⟩
  · rw [hmiss] at hhit
    cases hhit

/-- So it is behind all others. -/
theorem WellFormed.recent_get (h : WellFormed c) {code : String}
    (hhit : (c.get k code now).1.isSome = true)
    (hentry : (c.get k code now).2.find? k = some e) :
    Recent ((c.get k code now).2.live now) k e [] :=
  ⟨_, [], (h.live_of_hit hhit hentry).2, List.nil_subset _⟩

/-- **After its use** an entry that is alive is behind all others. -/
theorem WellFormed.recent_of_used (h : WellFormed c) {a : Access} (hused : k ∈ c.used a)
    (hentry : (c.access a).find? k = some e) (halive : c.isExpired a.time e = false) :
    Recent ((c.access a).live a.time) k e [] := by
  cases a with
  | put k' e' now =>
      obtain rfl : k = k' := List.mem_singleton.mp hused
      obtain rfl : e' = e := Option.some.inj ((find?_put_self c k e' now).symm.trans hentry)
      exact h.recent_put k halive
  | get k' code now =>
      cases hget : (c.get k' code now).1 with
      | none =>
          rw [used_of_miss hget] at hused
          cases hused
      | some d =>
          rw [used_of_hit hget] at hused
          obtain rfl : k = k' := List.mem_singleton.mp hused
          exact h.recent_get (by rw [hget]; rfl) hentry

/-- **Step lemma.**  A use of another key leaves the entry where it is, or
nearer to the front. -/
theorem WellFormed.recent_access (h : WellFormed c) {a : Access}
    (hrecent : Recent (c.live a.time) k e keys) (hother : k ∉ c.used a)
    (hfew : (keys ++ c.used a).dedup.length < c.capacity) :
    Recent ((c.access a).live a.time) k e (keys ++ c.used a) := by
  cases a with
  | put k' e' now =>
      have hk : k ≠ k' := fun heq => hother (List.mem_singleton.mpr heq)
      change Recent ((c.put k' e' now).live now) k e (keys ++ [k'])
      rw [h.live_put]
      refine (hrecent.survivors (h.nodup_live now) hk hfew).append ?_
      exact (List.filter_sublist.map Prod.fst).subset
  | get k' code now =>
      change Recent ((c.get k' code now).2.live now) k e _
      rcases live_get h.toInStep k' code now with ⟨e', -, -, hhit, hlive⟩ | ⟨-, hmiss, hlive⟩
      · rw [used_of_hit hhit] at hother ⊢
        have hk : k ≠ k' := fun heq => hother (List.mem_singleton.mpr heq)
        rw [hlive]
        exact (hrecent.filter (decide_eq_true hk)).append (List.Subset.refl _)
      · rw [used_of_miss hmiss, List.append_nil, hlive]
        exact hrecent

/-- More keys are at least as many different ones. -/
theorem length_dedup_le {keys keys' : List CacheKey} (h : keys ⊆ keys') :
    keys.dedup.length ≤ keys'.dedup.length :=
  (List.nodup_dedup keys).length_le_of_subset fun _ hk =>
    List.mem_dedup.mpr (h (List.mem_dedup.mp hk))

/-- **Run lemma.**  While time does not run back, the entry is not used itself
and fewer keys than there are places are, it stays. -/
theorem WellFormed.recent_accessAll (h : WellFormed c) {since : List Access} {start finish : Nat}
    (hrecent : Recent (c.live start) k e keys)
    (htimes : InTime start since finish)
    (hother : k ∉ c.usedBy since)
    (hfew : (keys ++ c.usedBy since).dedup.length < c.capacity)
    (halive : c.isExpired finish e = false) :
    Recent ((c.accessAll since).live finish) k e (keys ++ c.usedBy since) := by
  induction since generalizing c start keys with
  | nil =>
      change Recent (c.live finish) k e (keys ++ [])
      rw [List.append_nil, live_later c htimes.le]
      exact hrecent.filter (by simp [halive])
  | cons a rest ih =>
      obtain ⟨hstart, hafter⟩ := htimes
      rw [usedBy, List.mem_append, not_or] at hother
      rw [usedBy, ← List.append_assoc] at hfew ⊢
      have hnow : Recent (c.live a.time) k e keys := by
        rw [live_later c hstart]
        exact hrecent.filter (by simp [isExpired_eq_false_of_le hafter.le halive])
      have hcount : (keys ++ c.used a).dedup.length < c.capacity :=
        Nat.lt_of_le_of_lt (length_dedup_le (List.subset_append_left _ _)) hfew
      have hstep := h.recent_access hnow hother.1 hcount
      refine ih (h.access a) hstep hafter hother.2 ?_ ?_
      · rw [capacity_access]
        exact hfew
      · rw [isExpired_congr (lifetime_access c a)]
        exact halive

theorem WellFormed.accessAll (h : WellFormed c) (accesses : List Access) :
    WellFormed (c.accessAll accesses) := by
  induction accesses generalizing c with
  | nil => exact h
  | cons a rest ih => exact ih (h.access a)

/-- An entry that is alive answers a look for its source, if the key has the
hash of that source; otherwise the look takes it for another one. -/
theorem get_source_of_holds (h : c.Holds now k e) :
    (c.get k e.source now).1 = if e.hash = k.hash then some e.document else none := by
  obtain ⟨hfound, halive⟩ := h
  unfold get
  simp only [hfound, halive, and_true, Bool.false_eq_true, if_false]
  split <;> rfl

/-- **What stays** after a use, while fewer other keys than there are places are used. -/
theorem WellFormed.holds_of_used (h : WellFormed c) {a : Access} {since : List Access}
    (htimes : InTime a.time since now) (hused : k ∈ c.used a)
    (hentry : (c.access a).find? k = some e) (hother : k ∉ (c.access a).usedBy since)
    (hfew : ((c.access a).usedBy since).dedup.length < c.capacity)
    (halive : c.isExpired now e = false) : ((c.access a).accessAll since).Holds now k e := by
  have hstep : WellFormed (c.access a) := h.access a
  have hrecent := h.recent_of_used hused hentry (isExpired_eq_false_of_le htimes.le halive)
  have hkept := hstep.recent_accessAll hrecent htimes hother
    (by rwa [List.nil_append, capacity_access])
    ((isExpired_congr (lifetime_access c a) now e).trans halive)
  exact (hstep.accessAll since).mem_live.mp hkept.mem

/-- **What stays.**  After any calls of an empty cache, let an entry be put, or
found by a look, and let more uses follow while time does not run back.  If the
key is not used again, fewer other keys than there are places are, and the
entry has not expired, then it is still there; and a look for its source finds
it, unless it was put under a key with another hash than its own.

A look that finds nothing is no use: whatever follows, the same live entries
stay with it and without it. -/
theorem holds_of_recent_use (capacity lifetime : Nat) (past : List Call) :
    let c := (empty capacity lifetime).run past
    (∀ (a : Access) (since : List Access) (now : Nat) (k : CacheKey) (e : CacheEntry),
      InTime a.time since now → k ∈ c.used a → (c.access a).find? k = some e →
      k ∉ (c.access a).usedBy since →
      ((c.access a).usedBy since).dedup.length < c.capacity → c.isExpired now e = false →
        ((c.access a).accessAll since).Holds now k e ∧
        (((c.access a).accessAll since).get k e.source now).1 =
          if e.hash = k.hash then some e.document else none) ∧
    ∀ (k : CacheKey) (code : String) (start : Nat) (since : List Access) (now : Nat),
      InTime start since now → (c.get k code start).1 = none →
        ∀ k' e', ((c.get k code start).2.accessAll since).Holds now k' e' ↔
          (c.accessAll since).Holds now k' e' := by
  intro c
  have hrun : WellFormed c := (wellFormed_empty capacity lifetime).run past
  refine ⟨?_, ?_⟩
  · intro a since now k e htimes hused hentry hother hfew halive
    have hholds := hrun.holds_of_used htimes hused hentry hother hfew halive
    exact ⟨hholds, get_source_of_holds hholds⟩
  · intro k code start since now htimes hmiss k' e'
    exact ((hrun.alike_of_miss hmiss).accessAll htimes).holds_iff

/-- **When a look finds the source.**  If the last use of an entry was a look, or if its key and
the entry were both made of its source, a later look for that source always finds it, as long as
fewer other keys than there are places are used and the entry has not expired. -/
theorem get_of_recent_use (capacity lifetime : Nat) (past : List Call) :
    let c := (empty capacity lifetime).run past
    ∀ (a : Access) (since : List Access) (now : Nat) (k : CacheKey) (e : CacheEntry),
      InTime a.time since now → k ∈ c.used a → (c.access a).find? k = some e →
      k ∉ (c.access a).usedBy since →
      ((c.access a).usedBy since).dedup.length < c.capacity → c.isExpired now e = false →
      ((∃ code start, a = .get k code start) ∨
        ∃ language theme, k = .of e.source language theme ∧ e.hash = contentHash e.source) →
        (((c.access a).accessAll since).get k e.source now).1 = some e.document := by
  intro c a since now k e htimes hused hentry hother hfew halive hmade
  have hrun : WellFormed c := (wellFormed_empty capacity lifetime).run past
  have hholds := hrun.holds_of_used htimes hused hentry hother hfew halive
  have hhash : e.hash = k.hash := by
    rcases hmade with ⟨code, start, rfl⟩ | ⟨language, theme, hkey, hhash⟩
    · have hhit : (c.get k code start).1.isSome = true := by
        by_cases hsome : (c.get k code start).1.isSome = true
        · exact hsome
        · simp [used, hsome] at hused
      exact (hrun.live_of_hit hhit hentry).1
    · rw [hhash, hkey]
      rfl
  rw [get_source_of_holds hholds, if_pos hhash]

/-- Two places: of two entries the older one is found by a look, and the put of
a third one drops the other.  A look for another source drops nothing. -/
theorem holds_of_recent_use_third :
    let a := CacheKey.of "a" "text" "dark-plus"
    let b := CacheKey.of "b" "text" "dark-plus"
    let d := CacheKey.of "d" "text" "dark-plus"
    let first := CacheEntry.of (.plain "a") "a" false 0
    let third := CacheEntry.of (.plain "d") "d" false 20
    let c := (empty 2 3600000).run
      [.access (.put a first 0), .access (.put b (.of (.plain "b") "b" false 5) 5)]
    let found := c.access (.get a "a" 10)
    (InTime 10 [.put d third 20] 30 ∧ a ∈ c.used (.get a "a" 10) ∧ found.find? a = some first ∧
      a ∉ found.usedBy [.put d third 20] ∧
      (found.usedBy [.put d third 20]).dedup.length < c.capacity ∧
      c.isExpired 30 first = false ∧ (c.get a "x" 10).1 = none) ∧
    ((found.accessAll [.put d third 20]).Holds 30 a first ∧
      ((found.accessAll [.put d third 20]).get a "a" 30).1 = some (.plain "a")) ∧
    ∀ k e, ((c.get a "x" 10).2.accessAll [.put d third 20]).Holds 30 k e ↔
      (c.accessAll [.put d third 20]).Holds 30 k e := by
  intro a b d first third c found
  have htimes : InTime 10 [.put d third 20] 30 := ⟨show 10 ≤ 20 by decide, show 20 ≤ 30 by decide⟩
  have hother : a ∉ found.usedBy [.put d third 20] := by decide +kernel
  have hhit : a ∈ c.used (.get a "a" 10) := by decide +kernel
  have hmiss : (c.get a "x" 10).1 = none := by rfl
  have hfew : (found.usedBy [.put d third 20]).dedup.length < c.capacity := by decide +kernel
  obtain ⟨hkept, hsame⟩ := holds_of_recent_use 2 3600000
    [.access (.put a first 0), .access (.put b (.of (.plain "b") "b" false 5) 5)]
  exact ⟨⟨htimes, hhit, rfl, hother, hfew, rfl, hmiss⟩,
    hkept (.get a "a" 10) [.put d third 20] 30 a first htimes hhit rfl hother hfew rfl,
    hsame a "x" 10 [.put d third 20] 30 htimes hmiss⟩

/-- **A key of another source.**  An entry that is put under a key with another
hash than its own is there, but no look ever finds it. -/
theorem not_get_of_recent_use :
    ¬ ∀ (capacity lifetime : Nat) (past : List Call) (a : Access) (since : List Access) (now : Nat)
      (k : CacheKey) (e : CacheEntry),
      let c := (empty capacity lifetime).run past
      InTime a.time since now → k ∈ c.used a → (c.access a).find? k = some e →
      k ∉ (c.access a).usedBy since →
      ((c.access a).usedBy since).dedup.length < c.capacity → c.isExpired now e = false →
        (((c.access a).accessAll since).get k e.source now).1 = some e.document := by
  intro h
  let k := CacheKey.of "a" "text" "dark-plus"
  let e := CacheEntry.of (.plain "b") "b" false 0
  have hget : (((empty 2 3600000).put k e 0).get k "b" 0).1 = some (.plain "b") :=
    h 2 3600000 [] (.put k e 0) [] 0 k e (Nat.le_refl 0) (List.mem_singleton_self k) rfl
      List.not_mem_nil (by decide) rfl
  have hmiss : (((empty 2 3600000).put k e 0).get k "b" 0).1 = none := by rfl
  rw [hmiss] at hget
  cases hget

end CodeFence.Cache
