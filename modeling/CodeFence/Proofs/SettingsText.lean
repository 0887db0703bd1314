import CodeFence.Proofs.JsonRoundTrip
import CodeFence.Proofs.SettingsFields

/-!
# Settings as text

Settings are written in an order of their own, and what is read is in the order
of the keys.  Nothing else happens to them on the way: the text of settings
says their entries, each with its own value.

* `Json.ascending_of_parse?` — an object that was read has each key once, in
  order;
* `Json.perm_entriesOfTrees` — reading an object leaves its entries as they are,
  up to their order;
* `Settings.sameShape_cases` — the values that settings have;
* `Settings.WellShaped.parse?_render` — the text of settings says their entries.
-/

namespace CodeFence

namespace Json

/-! ## Objects that are read -/

/-- Entries that are put in place one after the other are in order. -/
theorem ascending_entriesOfTrees {trees : List (Option String × Tree)}
    {done entries : List (String × Json)} (hdone : Ascending done)
    (h : entriesOfTrees done trees = some entries) : Ascending entries := by
  induction trees generalizing done with
  | nil =>
      rw [entriesOfTrees] at h
      exact Option.some.inj h ▸ hdone
  | cons e rest ih =>
      obtain ⟨key?, t⟩ := e
      rw [entriesOfTrees.eq_def] at h
      dsimp only at h
      split at h
      · exact ih (hdone.insertEntry _ _) h
      · cases h

/-- **An object that was read** has each key once, in order. -/
theorem ascending_of_parse? {text : String} {entries : List (String × Json)}
    (h : parse? text = some (.object entries)) : Ascending entries := by
  unfold parse? at h
  split at h
  · split at h
    · rename_i t _ _
      cases t with
      | object trees =>
          rw [ofTree?] at h
          obtain ⟨read, hread, heq⟩ := Option.map_eq_some_iff.mp h
          exact Json.object.inj heq ▸ ascending_entriesOfTrees List.Pairwise.nil hread
      | _ => simp [ofTree?] at h
    · cases h
  · cases h

/-- **Entries are read as they are**, if each of their values is read as it is
and no key is there twice. -/
theorem perm_entriesOfTrees {entries done : List (String × Json)}
    (hread : ∀ e ∈ entries, ofTree? e.2.tree = some e.2)
    (hnodup : ((done ++ entries).map Prod.fst).Nodup) :
    ∃ read, entriesOfTrees done (entryTrees entries) = some read ∧
      read.Perm (done ++ entries) := by
  induction entries generalizing done with
  | nil => exact ⟨done, by rw [entryTrees, entriesOfTrees], by simp⟩
  | cons e rest ih =>
      obtain ⟨key, v⟩ := e
      obtain ⟨hfirst, hrest⟩ := List.forall_mem_cons.mp hread
      have hmoved : (done ++ (key, v) :: rest).Perm ((key, v) :: done ++ rest) :=
        List.perm_middle
      have hnodup' := (hmoved.map Prod.fst).nodup_iff.mp hnodup
      have hnew : key ∉ done.map Prod.fst := by
        intro hmem
        rw [List.cons_append, List.map_cons, List.nodup_cons, List.map_append] at hnodup'
        exact hnodup'.1 (List.mem_append_left _ hmem)
      have hput : (insertEntry key v done ++ rest).Perm ((key, v) :: done ++ rest) :=
        (perm_insertEntry hnew).append_right rest
      obtain ⟨read, hrun, hperm⟩ := ih hrest ((hput.map Prod.fst).nodup_iff.mpr hnodup')
      refine ⟨read, ?_, hperm.trans (hput.trans hmoved.symm)⟩
      rw [entryTrees, entriesOfTrees.eq_def]
      dsimp only at hfirst ⊢
      rw [hfirst]
      exact hrun

/-- Entries are no deeper than their values. -/
theorem depthOfEntries_le {n best : Nat} {entries : List (String × Json)} (hbest : best ≤ n)
    (h : ∀ e ∈ entries, e.2.tree.depth ≤ n) : depthOfEntries best (entryTrees entries) ≤ n := by
  induction entries generalizing best with
  | nil => simpa [entryTrees, depthOfEntries] using hbest
  | cons e rest ih =>
      obtain ⟨hfirst, hrest⟩ := List.forall_mem_cons.mp h
      rw [entryTrees, depthOfEntries]
      exact ih (Nat.max_le.mpr ⟨hbest, hfirst⟩) hrest

theorem plainEntries_of_forall {entries : List (String × Json)} (h : ∀ e ∈ entries, e.2.Plain) :
    PlainEntries entries := by
  induction entries with
  | nil => trivial
  | cons e rest ih =>
      obtain ⟨hfirst, hrest⟩ := List.forall_mem_cons.mp h
      exact ⟨hfirst, ih hrest⟩

/-! ## Lists of strings -/

theorem plain_ofStrings (xs : List String) : (ofStrings xs).Plain := by
  rw [ofStrings, Plain]
  induction xs with
  | nil => trivial
  | cons x rest ih => exact ⟨trivial, ih⟩

theorem depth_ofStrings (xs : List String) : (ofStrings xs).tree.depth = 1 := by
  have hitems : depthOfItems 0 (itemTrees (xs.map .string)) = 0 := by
    induction xs with
    | nil => rfl
    | cons x rest ih =>
        simpa [itemTrees, depthOfItems, tree, Tree.depth] using ih
  rw [ofStrings, tree, Tree.depth, hitems]

theorem itemsOfTrees_strings (xs : List String) (done : List Json) :
    itemsOfTrees done (itemTrees (xs.map .string)) = some (done.reverse ++ xs.map .string) := by
  induction xs generalizing done with
  | nil => simp [itemTrees, itemsOfTrees]
  | cons x rest ih =>
      rw [List.map_cons, itemTrees, itemsOfTrees, tree, ofTree?]
      simp [ih]

end Json

namespace Settings

open Json

/-! ## The values of settings -/

/-- **The values that settings have**: truth values, strings, natural numbers of
at most 32 bits, and lists of strings. -/
theorem sameShape_cases {v d : Json} (h : sameShape v d = true) :
    (∃ b, v = .bool b) ∨ (∃ x, v = .string x) ∨
      (∃ n < Text.bitBound 32, v = Json.ofNat n) ∨ ∃ xs, v = Json.ofStrings xs := by
  unfold sameShape at h
  split at h
  · exact Or.inl ⟨_, rfl⟩
  · exact Or.inr (Or.inl ⟨_, rfl⟩)
  · exact Or.inr (Or.inr (Or.inl ⟨_, of_decide_eq_true h, rfl⟩))
  · rw [← isSome_mapM_text?, Option.isSome_iff_exists] at h
    obtain ⟨xs, hxs⟩ := h
    rw [mapM_text?_eq_some_iff] at hxs
    exact Or.inr (Or.inr (Or.inr ⟨xs, by rw [hxs]; rfl⟩))
  · cases h

/-- The values of settings can be written, and they are read as they are. -/
theorem reads_of_sameShape {v d : Json} (h : sameShape v d = true) :
    v.Plain ∧ v.tree.depth ≤ 1 ∧ ofTree? v.tree = some v := by
  obtain ⟨b, rfl⟩ | ⟨x, rfl⟩ | ⟨n, hn, rfl⟩ | ⟨xs, rfl⟩ := sameShape_cases h
  · exact ⟨trivial, Nat.zero_le _, rfl⟩
  · exact ⟨trivial, Nat.zero_le _, rfl⟩
  · have hbound : n < Text.bitBound 64 := Nat.lt_trans hn (by decide)
    exact ⟨⟨n, hbound, rfl⟩, Nat.zero_le _, rfl⟩
  · refine ⟨plain_ofStrings xs, Nat.le_of_eq (depth_ofStrings xs), ?_⟩
    rw [ofStrings, tree, ofTree?, itemsOfTrees_strings]
    rfl

variable {s : Settings}

theorem WellShaped.reads (h : s.WellShaped) :
    ∀ e ∈ fields.map fun f => (f.key, f.get s),
      e.2.Plain ∧ e.2.tree.depth ≤ 1 ∧ ofTree? e.2.tree = some e.2 := by
  intro e he
  obtain ⟨f, hf, rfl⟩ := List.mem_map.mp he
  exact reads_of_sameShape (h f hf)

/-- **The text of settings says their entries.** -/
theorem WellShaped.parse?_render (h : s.WellShaped) :
    Json.parse? s.render = some (.object s.entries) := by
  have hreads := h.reads
  have hplain : s.toJson.Plain := plainEntries_of_forall fun e he => (hreads e he).1
  have hdepth : depthOfEntries 0 (entryTrees (fields.map fun f => (f.key, f.get s))) ≤ 1 :=
    depthOfEntries_le (Nat.zero_le _) fun e he => (hreads e he).2.1
  have hkeys : ((fields.map fun f => (f.key, f.get s)).map Prod.fst).Nodup := by
    simpa [Function.comp_def, keys] using nodup_keys
  obtain ⟨read, hrun, hperm⟩ :=
    @perm_entriesOfTrees _ [] (fun e he => (hreads e he).2.2) hkeys
  have hordered : read = s.entries :=
    (ascending_entriesOfTrees List.Pairwise.nil hrun).eq_of_perm (ascending_entries s)
      (hperm.trans (perm_entries s).symm)
  have htree : s.toJson.tree = .object (entryTrees (fields.map fun f => (f.key, f.get s))) := by
    rw [toJson, tree]
  have hlimit : s.toJson.tree.depth ≤ maxDepth := by
    rw [htree, Tree.depth, maxDepth]
    omega
  have hvalue : ofTree? s.toJson.tree = some (.object s.entries) := by
    rw [htree, ofTree?, hrun, hordered]
    rfl
  rw [Json.parse?, render, Json.parse?_render .indented hplain]
  simp only [hlimit, if_true, hvalue]

end Settings

end CodeFence
