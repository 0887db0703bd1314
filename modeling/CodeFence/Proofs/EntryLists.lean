import CodeFence.Entries

/-!
# Entries in the order of their keys

A list that has each key once is the same thing as what is found in it.  If it
is in the order of its keys as well, there is only one such list, however its
entries came in.

* `lookup_eq_some_iff_mem` — what is found under a key is the entry of that key;
* `Ascending` — the keys rise, so that each of them is there once;
* `insertEntry_self`, `insertEntry_of_ne` — an entry that is in place stays there;
* `Ascending.insertEntry`, `perm_insertEntry` — putting an entry in its place
  keeps the order, and adds that entry only;
* `ascending_inOrder`, `perm_inOrder` — so any entries can be put in order;
* `Ascending.eq_of_perm`, `Ascending.eq_of_lookup` — the same entries in order
  are the same list.
-/

namespace CodeFence

section

variable {κ α : Type} [BEq κ] [LawfulBEq κ]

/-- Keys that are there once are found with the entry that stands behind them. -/
theorem lookup_eq_some_iff_mem {entries : List (κ × α)} (hnodup : (entries.map Prod.fst).Nodup)
    {k : κ} {v : α} : entries.lookup k = some v ↔ (k, v) ∈ entries := by
  induction entries with
  | nil => simp
  | cons entry rest ih =>
      obtain ⟨key, first⟩ := entry
      rw [List.map_cons, List.nodup_cons] at hnodup
      by_cases hk : k = key
      · subst hk
        have hrest : (k, v) ∉ rest := fun hmem =>
          hnodup.1 (List.mem_map.mpr ⟨(k, v), hmem, rfl⟩)
        simp [hrest, eq_comm]
      · have hne : (k == key) = false := beq_false_of_ne hk
        simp [List.lookup_cons, hne, hk, ih hnodup.2]

theorem isSome_lookup_iff {entries : List (κ × α)} {k : κ} :
    (entries.lookup k).isSome ↔ k ∈ entries.map Prod.fst := by
  rw [List.lookup_isSome_iff, List.mem_map]
  constructor
  · rintro ⟨e, he, hk⟩
    exact ⟨e, he, (eq_of_beq hk).symm⟩
  · rintro ⟨e, he, rfl⟩
    exact ⟨e, he, beq_self_eq_true _⟩

theorem lookup_eq_none_iff_not_mem {entries : List (κ × α)} {k : κ} :
    entries.lookup k = none ↔ k ∉ entries.map Prod.fst := by
  rw [← isSome_lookup_iff, Option.not_isSome_iff_eq_none]

/-- A key that is not there yet is found behind all the others. -/
theorem lookup_append_single [DecidableEq κ] (entries : List (κ × α)) (k k' : κ) (v : α) :
    (entries ++ [(k, v)]).lookup k' =
      (entries.lookup k').or (if k' = k then some v else none) := by
  rw [List.lookup_append]
  by_cases hk : k' = k
  · subst hk
    simp
  · have hne : (k' == k) = false := beq_false_of_ne hk
    simp [List.lookup_cons, hne, hk]

/-- Filtering a key out hides the entry under it and no other one. -/
theorem lookup_filter_ne [DecidableEq κ] (entries : List (κ × α)) (k k' : κ) :
    (entries.filter (·.1 ≠ k)).lookup k' = if k' = k then none else entries.lookup k' := by
  induction entries with
  | nil => simp
  | cons entry rest ih =>
      obtain ⟨key, v⟩ := entry
      by_cases hkey : key = k
      · subst hkey
        by_cases hk : k' = key
        · subst hk
          simpa using ih
        · have hne : (k' == key) = false := beq_false_of_ne hk
          simpa [List.lookup_cons, hne, hk] using ih
      · by_cases hk : k' = key
        · subst hk
          simp [hkey]
        · have hne : (k' == key) = false := beq_false_of_ne hk
          simpa [List.lookup_cons, hne, hkey] using ih

/-- What is found after every value was replaced. -/
theorem lookup_map_value (entries : List (κ × α)) (value : κ × α → α) (k : κ) :
    (entries.map fun e => (e.1, value e)).lookup k =
      (entries.lookup k).map fun v => value (k, v) := by
  induction entries with
  | nil => rfl
  | cons entry rest ih =>
      obtain ⟨key, v⟩ := entry
      by_cases hk : k = key
      · subst hk
        simp
      · have hne : (k == key) = false := beq_false_of_ne hk
        simpa [List.lookup_cons, hne] using ih

end

variable {α : Type} {name : String} {value : α} {entries entries' : List (String × α)}

/-- Entries in the order of their keys, with each key once. -/
def Ascending (entries : List (String × α)) : Prop :=
  entries.Pairwise fun a b => a.1 < b.1

instance : Decidable (Ascending entries) :=
  inferInstanceAs (Decidable (List.Pairwise _ _))

theorem key_ne_of_lt {a b : String} (h : a < b) : a ≠ b := by
  rintro rfl
  exact String.lt_irrefl a h

theorem Ascending.nodup_keys (h : Ascending entries) : (entries.map Prod.fst).Nodup :=
  List.pairwise_map.mpr (h.imp fun hlt => key_ne_of_lt hlt)

theorem Ascending.nodup (h : Ascending entries) : entries.Nodup :=
  h.imp fun hlt heq => key_ne_of_lt hlt (congrArg Prod.fst heq)

theorem Ascending.filter (h : Ascending entries) (p : String × α → Bool) :
    Ascending (entries.filter p) :=
  List.Pairwise.filter p h

/-- The keys after an entry was put in place. -/
theorem mem_keys_insertEntry {k : String} :
    k ∈ (insertEntry name value entries).map Prod.fst ↔
      k = name ∨ k ∈ entries.map Prod.fst := by
  by_cases hk : k = name
  · subst hk
    simp [← isSome_lookup_iff, lookup_insertEntry_self]
  · simp [← isSome_lookup_iff, lookup_insertEntry_of_ne hk, hk]

/-- **The order is kept** when an entry is put in its place. -/
theorem Ascending.insertEntry (h : Ascending entries) (name : String) (value : α) :
    Ascending (insertEntry name value entries) := by
  induction entries with
  | nil => exact List.pairwise_singleton _ _
  | cons e rest ih =>
      obtain ⟨n, v⟩ := e
      obtain ⟨hfirst, hrest⟩ := List.pairwise_cons.mp h
      rw [CodeFence.insertEntry]
      split
      · rename_i hsame
        subst hsame
        exact List.pairwise_cons.mpr ⟨hfirst, hrest⟩
      · rename_i hne
        split
        · rename_i hlt
          refine List.pairwise_cons.mpr ⟨?_, h⟩
          intro e he
          rcases List.mem_cons.mp he with rfl | he
          · exact hlt
          · exact String.lt_trans hlt (hfirst e he)
        · rename_i hnotlt
          refine List.pairwise_cons.mpr ⟨?_, ih hrest⟩
          intro e he
          rcases mem_keys_insertEntry.mp (List.mem_map_of_mem he) with hname | hkey
          · have hle : n ≤ name := String.not_lt.mp hnotlt
            have hnot : ¬ name ≤ n := fun hle' => hne (String.le_antisymm hle hle')
            rw [hname]
            exact String.not_le.mp hnot
          · obtain ⟨e', he', heq⟩ := List.mem_map.mp hkey
            exact heq ▸ hfirst e' he'

/-- An entry with a new key is added to the others. -/
theorem perm_insertEntry (hnew : name ∉ entries.map Prod.fst) :
    (insertEntry name value entries).Perm ((name, value) :: entries) := by
  induction entries with
  | nil => exact List.Perm.refl _
  | cons e rest ih =>
      obtain ⟨n, v⟩ := e
      rw [List.map_cons, List.mem_cons, not_or] at hnew
      rw [insertEntry, if_neg fun h => hnew.1 h.symm]
      split
      · exact List.Perm.refl _
      · exact ((ih hnew.2).cons (n, v)).trans (List.Perm.swap ..)

theorem ascending_inOrder (entries : List (String × α)) : Ascending (inOrder entries) := by
  induction entries with
  | nil => exact List.Pairwise.nil
  | cons e rest ih => exact ih.insertEntry e.1 e.2

/-- **Entries with different keys** are only moved when they are put in order. -/
theorem perm_inOrder (h : (entries.map Prod.fst).Nodup) : (inOrder entries).Perm entries := by
  induction entries with
  | nil => exact List.Perm.refl _
  | cons e rest ih =>
      obtain ⟨hnew, hrest⟩ := List.nodup_cons.mp h
      have hperm := ih hrest
      have hnew' : e.1 ∉ (inOrder rest).map Prod.fst :=
        fun hmem => hnew ((hperm.map Prod.fst).mem_iff.mp hmem)
      exact (perm_insertEntry hnew').trans (hperm.cons e)

/-- **One list in order.**  The same entries in order are the same list. -/
theorem Ascending.eq_of_perm (h : Ascending entries) (h' : Ascending entries')
    (hperm : entries.Perm entries') : entries = entries' :=
  List.Perm.eq_of_pairwise
    (fun _ _ _ _ hlt hlt' => absurd hlt' (String.lt_asymm hlt)) h h' hperm

/-- Lists in order in which the same is found are the same list. -/
theorem Ascending.eq_of_lookup (h : Ascending entries) (h' : Ascending entries')
    (hlookup : ∀ k, entries.lookup k = entries'.lookup k) : entries = entries' := by
  refine h.eq_of_perm h' ((List.perm_ext_iff_of_nodup h.nodup h'.nodup).mpr ?_)
  rintro ⟨k, v⟩
  rw [← lookup_eq_some_iff_mem h.nodup_keys, ← lookup_eq_some_iff_mem h'.nodup_keys, hlookup]

/-- An entry that has been put in place can be put there again. -/
theorem insertEntry_self {α : Type} (name : String) (value : α) (entries : List (String × α)) :
    insertEntry name value (insertEntry name value entries) = insertEntry name value entries := by
  fun_induction insertEntry name value entries with
  | case1 => simp [insertEntry]
  | case2 => simp [insertEntry]
  | case3 => simp [insertEntry]
  | case4 n v rest hne hlt ih => rw [insertEntry, if_neg hne, if_neg hlt, ih]

/-- An entry that is in place stays there when another one is put in place. -/
theorem insertEntry_of_ne {α : Type} {name other : String} {value : α}
    {entries : List (String × α)} (hne : other ≠ name)
    (h : insertEntry name value entries = entries) (value' : α) :
    insertEntry name value (insertEntry other value' entries) =
      insertEntry other value' entries := by
  induction entries with
  | nil => cases h
  | cons e rest ih =>
      obtain ⟨n, v⟩ := e
      rw [insertEntry] at h
      split at h
      · -- The entry is the first one; the other one comes before or behind it.
        rename_i hn
        subst hn
        obtain ⟨-, rfl⟩ := Prod.mk.inj (List.cons.inj h).1
        by_cases hlt : other < n
        · have hnot : ¬ n < other := String.lt_asymm hlt
          simp [insertEntry, hne, hne.symm, hlt, hnot]
        · simp [insertEntry, hne.symm, hlt]
      · rename_i hn
        split at h
        · exact absurd (congrArg List.length h) (by simp)
        · rename_i hlt
          have hrest : insertEntry name value rest = rest := (List.cons.inj h).2
          rw [insertEntry]
          split
          · rename_i hother
            subst hother
            simp [insertEntry, hn, hlt, hrest]
          · split
            · rename_i hbefore
              have hnot : ¬ name < other := fun hlt' => hlt (String.lt_trans hlt' hbefore)
              simp [insertEntry, hne, hn, hlt, hnot, hrest]
            · simp [insertEntry, hn, hlt, ih hrest]

end CodeFence
