import CodeFence.Proofs.EntryLists
import CodeFence.Settings.Heal

/-!
# The table of settings

Each setting has a place of its own: what is put there is found there, and no
other setting changes.  Settings are nothing but the values in these places.  So
entries that have a value of the right shape for every setting spell out
settings, the only ones with these values.

* `Slot`, `slots` — the kind and the place of every field;
* `get_of_set?` — what a value changes that is put in place of a setting;
* `ext_get` — settings with the same values are the same settings;
* `WellShaped` — settings that can be written and read;
* `exists_ofEntries?` — entries of the right shapes spell out settings.
-/

namespace CodeFence.Settings

/-! ## One field -/

section

variable {key : String} {s s' : Settings} {v : Json}

theorem text?_eq_some_iff {x : String} : text? v = some x ↔ v = .string x := by
  cases v <;> simp [text?]

theorem mapM_text?_eq_some_iff {items : List Json} {xs : List String} :
    items.mapM text? = some xs ↔ items = xs.map .string := by
  induction items generalizing xs with
  | nil => cases xs <;> simp
  | cons v items ih =>
      simp only [List.mapM_cons, Option.bind_eq_bind, Option.bind_eq_some_iff, Option.pure_def,
        Option.some.injEq, ih, text?_eq_some_iff]
      constructor
      · rintro ⟨x, rfl, rest, rfl, rfl⟩
        rfl
      · intro h
        cases xs with
        | nil => cases h
        | cons x rest =>
            obtain ⟨rfl, rfl⟩ := List.cons.inj h
            exact ⟨x, rfl, rest, rfl, rfl⟩

/-- A list is read if it holds texts only. -/
theorem isSome_mapM_text? (items : List Json) :
    (items.mapM text?).isSome = items.all fun v => (text? v).isSome := by
  induction items with
  | nil => rfl
  | cons v items ih =>
      rw [List.mapM_cons, List.all_cons, ← ih]
      cases text? v with
      | none => rfl
      | some x => cases items.mapM text? <;> rfl

theorem set?_text {get : Settings → String} {set : Settings → String → Settings} :
    (Field.text key get set).set? s v = some s' ↔ ∃ x, v = .string x ∧ s' = set s x := by
  cases v <;> simp [Field.text, eq_comm]

theorem set?_flag {get : Settings → Bool} {set : Settings → Bool → Settings} :
    (Field.flag key get set).set? s v = some s' ↔ ∃ x, v = .bool x ∧ s' = set s x := by
  cases v <;> simp [Field.flag, eq_comm]

theorem set?_count {get : Settings → Nat} {set : Settings → Nat → Settings} :
    (Field.count key get set).set? s v = some s' ↔
      ∃ x, v = Json.ofNat x ∧ x < Text.bitBound 32 ∧ s' = set s x := by
  cases v with
  | number n => cases n <;> simp [Field.count, Json.ofNat, eq_comm]
  | _ => simp [Field.count, Json.ofNat]

theorem set?_texts {get : Settings → List String} {set : Settings → List String → Settings} :
    (Field.texts key get set).set? s v = some s' ↔ ∃ x, v = Json.ofStrings x ∧ s' = set s x := by
  cases v <;> simp [Field.texts, Json.ofStrings, mapM_text?_eq_some_iff, eq_comm]

end

/-- The values of all settings, in the order in which they are written. -/
def row (s : Settings) : List Json :=
  fields.map fun f => f.get s

/-- A field of one of the four kinds whose value stands at a place of the row,
and nowhere else. -/
inductive Slot : Field → Nat → Prop
  | text {key get set place} (h : ∀ s x, row (set s x) = (row s).set place (.string x)) :
      Slot (.text key get set) place
  | flag {key get set place} (h : ∀ s x, row (set s x) = (row s).set place (.bool x)) :
      Slot (.flag key get set) place
  | count {key get set place} (h : ∀ s x, row (set s x) = (row s).set place (Json.ofNat x)) :
      Slot (.count key get set) place
  | texts {key get set place} (h : ∀ s x, row (set s x) = (row s).set place (Json.ofStrings x)) :
      Slot (.texts key get set) place

namespace Slot

variable {f : Field} {place : Nat} {s s' : Settings} {v : Json}

/-- A value is put at the place of its field. -/
theorem row_of_set? (h : Slot f place) (hset : f.set? s v = some s') :
    row s' = (row s).set place v := by
  cases h with
  | text h =>
      obtain ⟨x, rfl, rfl⟩ := set?_text.mp hset
      exact h s x
  | flag h =>
      obtain ⟨x, rfl, rfl⟩ := set?_flag.mp hset
      exact h s x
  | count h =>
      obtain ⟨x, rfl, -, rfl⟩ := set?_count.mp hset
      exact h s x
  | texts h =>
      obtain ⟨x, rfl, rfl⟩ := set?_texts.mp hset
      exact h s x

/-- A field takes the values that have the shape of its own value. -/
theorem isSome_set? (h : Slot f place) (s s' : Settings) (v : Json) :
    (f.set? s v).isSome = sameShape v (f.get s') := by
  cases h with
  | text h => cases v <;> simp [Field.text, sameShape]
  | flag h => cases v <;> simp [Field.flag, sameShape]
  | count h =>
      cases v with
      | number n =>
          cases n with
          | natural n =>
              simp only [Field.count, Json.ofNat, sameShape]
              split <;> simp [*]
          | scaled m e => rfl
      | _ => simp [Field.count, Json.ofNat, sameShape]
  | texts h =>
      cases v with
      | array items =>
          simp only [Field.texts, Json.ofStrings, sameShape, Option.isSome_map]
          exact isSome_mapM_text? items
      | _ => simp [Field.texts, Json.ofStrings, sameShape]

end Slot

/-- Every field has its own place. -/
theorem slots : ∀ f ∈ fields.zipIdx, Slot f.1 f.2 := by
  simp only [fields, List.zipIdx, List.forall_mem_cons]
  refine ⟨.text ?_, .text ?_, .text ?_, .flag ?_, .text ?_, .texts ?_, .flag ?_, .flag ?_,
    .flag ?_, .flag ?_, .flag ?_, .flag ?_, .texts ?_, .flag ?_, .text ?_, .flag ?_, .count ?_,
    .count ?_, .flag ?_, .text ?_, .text ?_, .text ?_, .text ?_, .flag ?_, .text ?_, .flag ?_,
    .text ?_, .flag ?_, by simp⟩
  all_goals exact fun _ _ => rfl

/-! ## All fields -/

/-- The keys of the settings. -/
def keys : List String :=
  fields.map (·.key)

theorem nodup_keys : keys.Nodup := by
  decide

theorem key_mem_keys {f : Field} (hf : f ∈ fields) : f.key ∈ keys :=
  List.mem_map_of_mem hf

variable {f g : Field} {s s' : Settings} {v : Json}

/-- Every field stands somewhere in the table. -/
theorem exists_slot (hf : f ∈ fields) : ∃ place, fields[place]? = some f ∧ Slot f place := by
  obtain ⟨place, hplace⟩ := List.getElem?_of_mem hf
  refine ⟨place, hplace, slots (f, place) ?_⟩
  rw [List.mem_zipIdx_iff_getElem?]
  exact hplace

/-- Fields with one key are one field. -/
theorem place_eq_iff {i j : Nat} (hf : fields[i]? = some f) (hg : fields[j]? = some g) :
    i = j ↔ g.key = f.key := by
  constructor
  · rintro rfl
    rw [hf] at hg
    rw [Option.some.inj hg]
  · intro hkey
    have hi : keys[i]? = some f.key := by simp [keys, hf]
    have hj : keys[j]? = some f.key := by simp [keys, hg, hkey]
    have hlt : i < keys.length := (List.getElem?_eq_some_iff.mp hi).1
    exact (List.getElem?_inj hlt nodup_keys).mp (hi.trans hj.symm)

/-- A field is known by its key. -/
theorem eq_of_key (hf : f ∈ fields) (hg : g ∈ fields) (hkey : g.key = f.key) : g = f := by
  obtain ⟨i, hi, -⟩ := exists_slot hf
  obtain ⟨j, hj, -⟩ := exists_slot hg
  rw [← (place_eq_iff hi hj).mpr hkey, hi] at hj
  exact (Option.some.inj hj).symm

/-- **What a value changes.**  It is found where it was put, and all other
settings are as before. -/
theorem get_of_set? (hf : f ∈ fields) (hg : g ∈ fields) (h : f.set? s v = some s') :
    g.get s' = if g.key = f.key then v else g.get s := by
  obtain ⟨i, hi, hslot⟩ := exists_slot hf
  obtain ⟨j, hj, -⟩ := exists_slot hg
  have hget : ∀ s : Settings, s.row[j]? = some (g.get s) := fun s => by simp [row, hj]
  have hlength : i < s.row.length := by
    have hlt := (List.getElem?_eq_some_iff.mp hi).1
    simpa [row] using hlt
  have hrow := congrArg (·[j]?) (hslot.row_of_set? h)
  simp only [hget, List.getElem?_set] at hrow
  by_cases hkey : g.key = f.key
  · rw [if_pos ((place_eq_iff hi hj).mpr hkey), if_pos hlength] at hrow
    rw [if_pos hkey, Option.some.inj hrow]
  · rw [if_neg fun heq => hkey ((place_eq_iff hi hj).mp heq)] at hrow
    rw [if_neg hkey, Option.some.inj hrow]

/-- **What a field takes** are the values with the shape of its own value. -/
theorem isSome_set? (hf : f ∈ fields) (s s' : Settings) (v : Json) :
    (f.set? s v).isSome = sameShape v (f.get s') := by
  obtain ⟨place, -, hslot⟩ := exists_slot hf
  exact hslot.isSome_set? s s' v

/-- **Nothing but its values.**  Settings with the same values are the same. -/
theorem ext_get (h : ∀ f ∈ fields, f.get s = f.get s') : s = s' := by
  simp only [fields, List.forall_mem_cons, Field.text, Field.flag, Field.count, Field.texts,
    Json.ofNat, Json.ofStrings, Json.string.injEq, Json.bool.injEq, Json.number.injEq,
    Json.Number.natural.injEq, Json.array.injEq] at h
  have hstrings : ∀ xs ys : List String, xs.map Json.string = ys.map Json.string → xs = ys :=
    fun _ _ => (List.map_inj_right fun _ _ h => Json.string.inj h).mp
  cases s
  cases s'
  simp only [Settings.mk.injEq]
  grind

/-- The value of every setting has the shape of the default. -/
def WellShaped (s : Settings) : Prop :=
  ∀ f ∈ fields, sameShape (f.get s) (f.get standard) = true

theorem wellShaped_standard : standard.WellShaped := by
  have hall : fields.all (fun f => sameShape (f.get standard) (f.get standard)) = true := by
    decide
  exact fun f hf => List.all_eq_true.mp hall f hf

/-! ## Entries -/

theorem ascending_entries (s : Settings) : Ascending s.entries :=
  ascending_inOrder _

/-- The entries of settings are one for each field. -/
theorem perm_entries (s : Settings) :
    s.entries.Perm (fields.map fun f => (f.key, f.get s)) := by
  have hkeys : (fields.map fun f => (f.key, f.get s)).map Prod.fst = keys := by
    simp [keys, Function.comp_def]
  exact perm_inOrder (hkeys ▸ nodup_keys)

theorem mem_entries {e : String × Json} : e ∈ s.entries ↔ ∃ f ∈ fields, (f.key, f.get s) = e := by
  rw [(perm_entries s).mem_iff, List.mem_map]

theorem keys_entries (s : Settings) : (s.entries.map Prod.fst).Perm keys := by
  have hkeys := (perm_entries s).map Prod.fst
  rwa [List.map_map] at hkeys

/-- What stands under the key of a field. -/
theorem lookup_entries (hf : f ∈ fields) (s : Settings) :
    s.entries.lookup f.key = some (f.get s) :=
  (lookup_eq_some_iff_mem (ascending_entries s).nodup_keys).mpr (mem_entries.mpr ⟨f, hf, rfl⟩)

/-- Entries that have a value of the right shape for every field give it to each
of them, one after the other. -/
theorem exists_foldlM_set? {given : List (String × Json)} {fs : List Field}
    (hfs : ∀ f ∈ fs, f ∈ fields) (hnodup : (fs.map (·.key)).Nodup)
    (hgiven : ∀ f ∈ fs, ∃ v, given.lookup f.key = some v ∧
      sameShape v (f.get standard) = true) (s : Settings) :
    ∃ s', fs.foldlM (fun s f => (given.lookup f.key).bind (f.set? s)) s = some s' ∧
      (∀ f ∈ fs, given.lookup f.key = some (f.get s')) ∧
      ∀ g ∈ fields, g.key ∉ fs.map (·.key) → g.get s' = g.get s := by
  induction fs generalizing s with
  | nil => exact ⟨s, rfl, by simp, fun _ _ _ => rfl⟩
  | cons f rest ih =>
      obtain ⟨hf, hrest⟩ := List.forall_mem_cons.mp hfs
      obtain ⟨⟨v, hlookup, hshape⟩, hothers⟩ := List.forall_mem_cons.mp hgiven
      rw [List.map_cons, List.nodup_cons] at hnodup
      rw [← isSome_set? hf s standard v] at hshape
      obtain ⟨s₁, hset⟩ := Option.isSome_iff_exists.mp hshape
      obtain ⟨s', hrun, hfound, hframe⟩ := ih hrest hnodup.2 hothers s₁
      refine ⟨s', ?_, ?_, ?_⟩
      · rw [List.foldlM_cons, hlookup, Option.bind_some, hset]
        exact hrun
      · refine List.forall_mem_cons.mpr ⟨?_, hfound⟩
        -- the later fields have other keys, so this one keeps its value
        rw [hlookup, hframe f hf hnodup.1, get_of_set? hf hf hset, if_pos rfl]
      · intro g hg hkey
        rw [List.map_cons, List.mem_cons, not_or] at hkey
        rw [hframe g hg hkey.2, get_of_set? hf hg hset, if_neg hkey.1]

/-- **Entries of the right shapes spell out settings**, and these have the very
values that were given. -/
theorem exists_ofEntries? {given : List (String × Json)}
    (hgiven : ∀ f ∈ fields, ∃ v, given.lookup f.key = some v ∧
      sameShape v (f.get standard) = true) :
    ∃ s, ofEntries? given = some s ∧ ∀ f ∈ fields, given.lookup f.key = some (f.get s) := by
  obtain ⟨s, hrun, hfound, -⟩ :=
    exists_foldlM_set? (fun _ hf => hf) nodup_keys hgiven standard
  exact ⟨s, hrun, hfound⟩

end CodeFence.Settings
