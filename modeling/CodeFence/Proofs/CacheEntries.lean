import CodeFence.Cache
import CodeFence.Proofs.EntryLists

/-!
# The entries of a cache

What every operation of a cache does to the entries under its keys.  Time and
capacity decide which entries go; no operation but `put` brings one in, and
that one only under its own key.

* `get_cases`, `withRoom_cases` — what a look and a put can do;
* `get_eq_some_iff` — when a look into the cache finds a document;
* `Within` — one cache holds nothing that the other one does not hold; it
  relates a cache to whatever a look, an eviction or a new capacity leaves;
* `find?_put_self`, `find?_put_other` — what is found after a `put`.
-/

namespace CodeFence.Cache

open Markup

variable {c c' c'' : Cache} {k k' : CacheKey} {e e' : CacheEntry} {now later : Nat}

theorem find?_remove (c : Cache) (k k' : CacheKey) :
    (c.remove k).find? k' = if k' = k then none else c.find? k' :=
  lookup_filter_ne c.entries k k'

@[simp] theorem find?_touch (c : Cache) (k k' : CacheKey) :
    (c.touch k).find? k' = c.find? k' := by
  unfold touch
  split <;> rfl

@[simp] theorem find?_clear (c : Cache) (k : CacheKey) : c.clear.find? k = none := rfl

/-- Every entry of `c'` is an entry of `c` under the same key, and it lives as
long in `c'` as it does in `c`. -/
structure Within (c' c : Cache) : Prop where
  lifetime : c'.lifetime = c.lifetime
  find? : ∀ k e, c'.find? k = some e → c.find? k = some e

namespace Within

theorem refl (c : Cache) : Within c c := ⟨rfl, fun _ _ h => h⟩

theorem trans (h : Within c'' c') (h' : Within c' c) : Within c'' c :=
  ⟨h.lifetime.trans h'.lifetime, fun k e he => h'.find? k e (h.find? k e he)⟩

end Within

theorem within_remove (c : Cache) (k : CacheKey) : Within (c.remove k) c := by
  refine ⟨rfl, fun k' e h => ?_⟩
  rw [find?_remove] at h
  split at h
  · cases h
  · exact h

theorem within_touch (c : Cache) (k : CacheKey) : Within (c.touch k) c := by
  refine ⟨?_, fun k' e h => ?_⟩
  · unfold touch
    split <;> rfl
  · rwa [find?_touch] at h

theorem within_evictOldest (c : Cache) : Within c.evictOldest c := by
  unfold evictOldest
  cases c.order with
  | nil => exact Within.refl c
  | cons k rest => exact ⟨rfl, (within_remove c k).find?⟩

/-- Dropping any number of keys brings nothing in. -/
theorem within_removeAll (keys : List CacheKey) (c : Cache) : Within (keys.foldl remove c) c := by
  induction keys generalizing c with
  | nil => exact Within.refl c
  | cons k rest ih => exact (ih (c.remove k)).trans (within_remove c k)

theorem within_makeRoom (c : Cache) (now : Nat) : Within (c.makeRoom now) c := by
  unfold makeRoom
  cases c.expiredKeys now with
  | nil => exact within_evictOldest c
  | cons k rest => exact within_removeAll (k :: rest) c

theorem within_evictMany (excess : Nat) (c : Cache) : Within (c.evictMany excess) c := by
  induction excess generalizing c with
  | zero => exact Within.refl c
  | succ n ih => exact (ih c.evictOldest).trans (within_evictOldest c)

theorem within_setCapacity (c : Cache) (capacity : Nat) : Within (c.setCapacity capacity) c := by
  have hsame : Within { c with capacity := max capacity 1 } c := ⟨rfl, fun _ _ h => h⟩
  exact (within_evictMany _ _).trans hsame

theorem within_clear (c : Cache) : Within c.clear c := by
  refine ⟨rfl, fun k e h => ?_⟩
  rw [find?_clear] at h
  cases h

/-- **Three ways of a look.**  There is nothing that matches, or something that
has expired goes, or a match is used. -/
theorem get_cases (c : Cache) (k : CacheKey) (code : String) (now : Nat) :
    (c.get k code now = (none, c) ∧ ∀ e, c.find? k = some e →
        c.isExpired now e = false ∧ ¬ (e.hash = k.hash ∧ e.source = code)) ∨
      (∃ e, c.get k code now = (none, c.remove k) ∧ c.find? k = some e ∧
        c.isExpired now e = true) ∨
      ∃ e, c.get k code now = (some e.document, c.touch k) ∧ c.find? k = some e ∧
        c.isExpired now e = false ∧ e.hash = k.hash ∧ e.source = code := by
  unfold get
  cases hfound : c.find? k with
  | none => exact Or.inl ⟨rfl, fun e he => by cases he⟩
  | some e =>
      dsimp only
      cases hexpired : c.isExpired now e with
      | true => exact Or.inr (Or.inl ⟨e, rfl, rfl, hexpired⟩)
      | false =>
          by_cases hmatch : e.hash = k.hash ∧ e.source = code
          · refine Or.inr (Or.inr ⟨e, ?_, rfl, hexpired, hmatch⟩)
            simp [hmatch]
          · refine Or.inl ⟨?_, fun e' he => ?_⟩
            · simp [hmatch]
            · cases he
              exact ⟨hexpired, hmatch⟩

/-- **A hit.**  A look finds a document exactly when there is an entry under
the key that has not expired and that was made of the same source. -/
theorem get_eq_some_iff {code : String} {d : Document} :
    (c.get k code now).1 = some d ↔
      ∃ e, c.find? k = some e ∧ c.isExpired now e = false ∧ e.hash = k.hash ∧
        e.source = code ∧ e.document = d := by
  rcases get_cases c k code now with
    ⟨hget, hmiss⟩ | ⟨e, hget, hfound, hexpired⟩ | ⟨e, hget, hfound, halive, hhash, hsource⟩ <;>
    rw [hget]
  · constructor
    · intro h
      cases h
    · rintro ⟨e, hfound, -, hhash, hsource, -⟩
      exact absurd ⟨hhash, hsource⟩ (hmiss e hfound).2
  · simp [hfound, hexpired]
  · simp [hfound, halive, hhash, hsource]

/-- A look into the cache drops an entry at most. -/
theorem within_get (c : Cache) (k : CacheKey) (code : String) (now : Nat) :
    Within (c.get k code now).2 c := by
  rcases get_cases c k code now with ⟨hget, -⟩ | ⟨e, hget, -, -⟩ | ⟨e, hget, -⟩ <;> rw [hget]
  · exact Within.refl c
  · exact within_remove c k
  · exact within_touch c k

/-- The cache in which an entry is put: the one before, with room made if the
key is new and the cache is full. -/
def withRoom (c : Cache) (k : CacheKey) (now : Nat) : Cache :=
  if (c.find? k).isNone && decide (c.capacity ≤ c.size) then c.makeRoom now else c

/-- **Two ways of a put.**  There is a place for the entry, or room is made. -/
theorem withRoom_cases (c : Cache) (k : CacheKey) (now : Nat) :
    (c.withRoom k now = c ∧ ((∃ e, c.find? k = some e) ∨ c.size < c.capacity)) ∨
      (c.withRoom k now = c.makeRoom now ∧ c.find? k = none ∧ c.capacity ≤ c.size) := by
  unfold withRoom
  cases hfound : c.find? k with
  | some e => exact Or.inl ⟨by simp, Or.inl ⟨e, rfl⟩⟩
  | none =>
      by_cases hfull : c.capacity ≤ c.size
      · exact Or.inr ⟨by simp [hfull], rfl, hfull⟩
      · exact Or.inl ⟨by simp [hfull], Or.inr (Nat.lt_of_not_le hfull)⟩

theorem within_withRoom (c : Cache) (k : CacheKey) (now : Nat) : Within (c.withRoom k now) c := by
  unfold withRoom
  split
  · exact within_makeRoom c now
  · exact Within.refl c

/-- The cache with an entry under a key, as the most recently used one. -/
def enqueue (c : Cache) (k : CacheKey) (e : CacheEntry) : Cache :=
  { c with
    entries := c.entries.filter (·.1 ≠ k) ++ [(k, e)]
    order := c.order.filter (· ≠ k) ++ [k] }

theorem put_eq_enqueue (c : Cache) (k : CacheKey) (e : CacheEntry) (now : Nat) :
    c.put k e now = (c.withRoom k now).enqueue k e := rfl

theorem find?_enqueue (c : Cache) (k k' : CacheKey) (e : CacheEntry) :
    (c.enqueue k e).find? k' = if k' = k then some e else c.find? k' := by
  change (c.entries.filter (·.1 ≠ k) ++ [(k, e)]).lookup k' = _
  rw [lookup_append_single, lookup_filter_ne]
  by_cases hk : k' = k
  · rw [if_pos hk, if_pos hk, if_pos hk]
    rfl
  · rw [if_neg hk, if_neg hk, if_neg hk, Option.or_none]
    rfl

theorem find?_put (c : Cache) (k k' : CacheKey) (e : CacheEntry) (now : Nat) :
    (c.put k e now).find? k' =
      if k' = k then some e else (c.withRoom k now).find? k' :=
  find?_enqueue (c.withRoom k now) k k' e

theorem find?_put_self (c : Cache) (k : CacheKey) (e : CacheEntry) (now : Nat) :
    (c.put k e now).find? k = some e := by
  rw [find?_put, if_pos rfl]

/-- Under any other key a `put` leaves at most what was there. -/
theorem find?_put_other (hk : k' ≠ k) (h : (c.put k e now).find? k' = some e') :
    c.find? k' = some e' := by
  rw [find?_put, if_neg hk] at h
  exact (within_withRoom c k now).find? k' e' h

theorem lifetime_put (c : Cache) (k : CacheKey) (e : CacheEntry) (now : Nat) :
    (c.put k e now).lifetime = c.lifetime :=
  (within_withRoom c k now).lifetime

/-- An entry that has expired stays expired. -/
theorem isExpired_mono (hle : now ≤ later) (h : c.isExpired now e = true) :
    c.isExpired later e = true := by
  have hnow : c.lifetimeOf e ≤ now - e.created := of_decide_eq_true h
  have hlater : c.lifetimeOf e ≤ later - e.created := by omega
  exact decide_eq_true hlater

end CodeFence.Cache
