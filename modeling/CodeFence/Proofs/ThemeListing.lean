import CodeFence.Proofs.NamedFiles
import CodeFence.Proofs.ThemeIds

/-!
# Listed themes and themes that are found

A list of themes goes by the names of what lies in the directories, and a theme
is looked for by its id.  Both try the same places in the same order: the list
takes the first one that its directory lists, and looking takes the first one
that is a file.  A file is always listed by its directory.  But what is listed
may be no file, or it may have a name that is for no safe id; then the list has
a theme of the user that cannot be found.

* `find?_entries` — in a directory in order, the first entry for an id is at the
  first place where one may be;
* `find?_list`, `nodup_list` — what a list says of an id, and that it says this
  once;
* `isListed_of_isFile` — a file for an id is listed;
* `list_agrees_iff` — where a list agrees with looking.
-/

namespace CodeFence.Theme

/-- A name in a directory. -/
structure Place where
  directory : String
  name : String

namespace Place

/-- The path of what has a name in a directory. -/
def path (p : Place) : String :=
  Path.join p.directory p.name

/-- Whether the directory lists the name. -/
def isListed (files : FileStore) (p : Place) : Bool :=
  p.name ∈ (files.list? p.directory).getD []

end Place

/-- Where a theme with an id may be, in the order in which this is tried. -/
def places (id : String) (directories : List String) : List Place :=
  directories.flatMap fun d => endings.map fun e => ⟨d, id ++ "." ++ e⟩

/-- What a list takes for the file of an id: the first thing of such a name,
whether it is a file or not. -/
def listedFile? (files : FileStore) (id : String) (directories : List String) : Option String :=
  if id = "" then none
  else ((places id directories).find? (Place.isListed files)).map Place.path

/-- The name that the file of a theme gives, if that can be read. -/
def nameAt? (files : FileStore) (path : String) : Option String :=
  match files.readText path with
  | .ok text => nameIn? text.toList
  | .error _ => none

/-- A list agrees with looking for an id: it has the id once if there is a theme
of it, and else not at all, and calls it the user's if a file is found. -/
structure Agrees (files : FileStore) (directories : List String) (id : String) : Prop where
  once : ((list files directories).map Listing.id).count id =
    if isKnown files id directories then 1 else 0
  user : (∃ l ∈ list files directories, l.id = id ∧ l.origin = .user) ↔
    (findFile? files id directories).isSome = true

variable {files : FileStore} {id : String} {directories : List String}

theorem candidates_eq (id : String) (directories : List String) :
    candidates id directories = (places id directories).map Place.path := by
  rw [candidates, places, List.map_flatMap]
  rfl

/-! ## Names for an id -/

/-- Whether a file name is one for the theme with an id. -/
def isFor (id name : String) : Bool :=
  (Path.ending? name).any endings.contains && Path.stem name = id

theorem dot_not_mem_ending {e : String} (he : e ∈ endings) : '.' ∉ e.toList := by
  revert e
  decide

theorem isFor_iff {name : String} :
    isFor id name = true ↔ id ≠ "" ∧ ∃ e ∈ endings, name = id ++ "." ++ e := by
  unfold isFor Path.ending? Path.stem
  rw [Bool.and_eq_true, decide_eq_true_iff]
  constructor
  · rintro ⟨hending, rfl⟩
    obtain ⟨e, he, hmem⟩ := (Option.any_eq_true _ _).mp hending
    obtain ⟨hname, hid⟩ := Path.eq_of_splitName (Prod.ext rfl he)
    exact ⟨hid, e, List.contains_iff_mem.mp hmem, hname⟩
  · rintro ⟨hid, e, he, rfl⟩
    rw [Path.splitName_append hid (dot_not_mem_ending he)]
    exact ⟨List.contains_iff_mem.mpr he, rfl⟩

/-- In a list in order, nothing that is looked for comes before what is found. -/
theorem le_of_find? {names : List String} (hnames : names.Pairwise (· ≤ ·)) {p : String → Bool}
    {first name : String} (hfirst : names.find? p = some first) (hname : name ∈ names)
    (hp : p name = true) : first ≤ name := by
  obtain ⟨-, before, behind, rfl, hbefore⟩ := List.find?_eq_some_iff_append.mp hfirst
  rcases List.mem_append.mp hname with hmem | hmem
  · have hnot := hbefore name hmem
    rw [hp] at hnot
    cases hnot
  · rcases List.mem_cons.mp hmem with rfl | hmem
    · exact String.le_refl name
    · exact List.rel_of_pairwise_cons (List.pairwise_append.mp hnames).2.1 hmem

/-- Lists in order have one first name in common. -/
theorem find?_mem_comm {names others : List String} (hnames : names.Pairwise (· ≤ ·))
    (hothers : others.Pairwise (· ≤ ·)) :
    names.find? (· ∈ others) = others.find? (· ∈ names) := by
  cases hfirst : names.find? (· ∈ others) with
  | none =>
      refine (List.find?_eq_none.mpr fun name hname hmem => ?_).symm
      exact List.find?_eq_none.mp hfirst name (of_decide_eq_true hmem) (decide_eq_true hname)
  | some first =>
      have hmem := List.mem_of_find?_eq_some hfirst
      have hother : first ∈ others := by simpa using List.find?_some hfirst
      obtain ⟨other, hsome⟩ : ∃ other, others.find? (· ∈ names) = some other :=
        Option.isSome_iff_exists.mp (List.find?_isSome.mpr ⟨first, hother, decide_eq_true hmem⟩)
      have hthere : other ∈ names := by simpa using List.find?_some hsome
      have hle : first ≤ other :=
        le_of_find? hnames hfirst hthere (decide_eq_true (List.mem_of_find?_eq_some hsome))
      have hge : other ≤ first := le_of_find? hothers hsome hother (decide_eq_true hmem)
      rw [hsome, String.le_antisymm hle hge]

/-- The names for an id stand in order. -/
theorem pairwise_names (id : String) :
    (endings.map fun e => id ++ "." ++ e).Pairwise (· ≤ ·) := by
  have hle : id ++ "." ++ "yaml" ≤ id ++ "." ++ "yml" := by
    rw [← String.not_lt, String.lt_iff, List.not_lt]
    simp only [String.toList_append]
    refine List.append_left_le ?_
    decide
  simpa [endings] using hle

theorem pairwise_list? (files : FileStore) (d : String) :
    ((files.list? d).getD []).Pairwise (· ≤ ·) := by
  unfold FileStore.list?
  split
  · exact List.Pairwise.nil
  · split
    · refine (List.pairwise_mergeSort ?_ ?_ _).imp of_decide_eq_true
      · intro a b c hab hbc
        exact decide_eq_true (String.le_trans (of_decide_eq_true hab) (of_decide_eq_true hbc))
      · intro a b
        simpa using String.le_total a b
    · exact List.Pairwise.nil

/-! ## Taking what the directories list -/

/-- What lies in a directory. -/
def entriesIn (files : FileStore) (d : String) : List Place :=
  ((files.list? d).getD []).map fun name => ⟨d, name⟩

/-- The listing of a theme of the user. -/
def listingOf (files : FileStore) (p : Place) : Listing where
  id := Path.stem p.name
  name := (nameAt? files p.path).getD (Path.stem p.name)
  origin := .user

/-- Adds what lies in a directory to a list, if it is a theme of a new id. -/
def listEntry (files : FileStore) (done : List Listing) (p : Place) : List Listing :=
  if (Path.ending? p.name).any endings.contains && !done.any (·.id = Path.stem p.name) then
    done ++ [listingOf files p]
  else done

/-- The listed themes of the user. -/
def users (files : FileStore) (directories : List String) : List Listing :=
  directories.foldl (listDirectory files) []

theorem users_eq (files : FileStore) (directories : List String) : users files directories =
    (directories.flatMap (entriesIn files)).foldl (listEntry files) [] := by
  rw [List.foldl_flatMap, users]
  congr 1
  funext done d
  rw [entriesIn, List.foldl_map]
  rfl

/-- **One more entry** is taken if it is for an id that there is not. -/
theorem find?_listEntry (done : List Listing) (p : Place) :
    (listEntry files done p).find? (·.id = id) =
      (done.find? (·.id = id)).or (if isFor id p.name then some (listingOf files p) else none) := by
  unfold listEntry isFor
  by_cases hending : (Path.ending? p.name).any endings.contains = true
  · rw [hending, Bool.true_and, Bool.true_and]
    by_cases hold : done.any (·.id = Path.stem p.name) = true
    · rw [hold, if_neg (by decide)]
      by_cases hstem : Path.stem p.name = id
      · obtain ⟨l, hl, hid⟩ := List.any_eq_true.mp hold
        have hsome : (done.find? (·.id = id)).isSome = true :=
          List.find?_isSome.mpr ⟨l, hl, hstem ▸ hid⟩
        rw [Option.or_of_isSome hsome]
      · simp [hstem]
    · rw [Bool.not_eq_true] at hold
      rw [hold, if_pos (by decide), List.find?_append]
      by_cases hstem : Path.stem p.name = id <;> simp [listingOf, hstem]
  · simp [hending]

theorem nodup_listEntry {done : List Listing} (hdone : (done.map Listing.id).Nodup) (p : Place) :
    ((listEntry files done p).map Listing.id).Nodup := by
  unfold listEntry
  split
  · rename_i hnew
    have hnot : Path.stem p.name ∉ done.map Listing.id := by
      intro hmem
      obtain ⟨l, hl, hid⟩ := List.mem_map.mp hmem
      have hold : done.any (·.id = Path.stem p.name) = true :=
        List.any_eq_true.mpr ⟨l, hl, decide_eq_true hid⟩
      rw [hold, Bool.not_true, Bool.and_false] at hnew
      cases hnew
    rw [List.map_append, List.nodup_append]
    refine ⟨hdone, by simp, ?_⟩
    rintro a ha b hb rfl
    have hstem : a = Path.stem p.name := List.mem_singleton.mp hb
    exact hnot (hstem ▸ ha)
  · exact hdone

/-- The first entry for an id is the one that is taken. -/
theorem find?_foldl_listEntry (done : List Listing) (entries : List Place) :
    (entries.foldl (listEntry files) done).find? (·.id = id) =
      (done.find? (·.id = id)).or
        ((entries.find? fun p => isFor id p.name).map (listingOf files)) := by
  induction entries generalizing done with
  | nil => simp
  | cons p rest ih =>
      rw [List.foldl_cons, ih, find?_listEntry, List.find?_cons, Option.or_assoc]
      cases isFor id p.name <;> simp

theorem nodup_foldl_listEntry {done : List Listing} (hdone : (done.map Listing.id).Nodup)
    (entries : List Place) : ((entries.foldl (listEntry files) done).map Listing.id).Nodup := by
  induction entries generalizing done with
  | nil => exact hdone
  | cons p rest ih => exact ih (nodup_listEntry hdone p)

/-- **The first entry for an id** in the directories is at the first place where
one may be. -/
theorem find?_entries (hid : id ≠ "") (files : FileStore) (directories : List String) :
    ((directories.flatMap (entriesIn files)).find? fun p => isFor id p.name) =
      (places id directories).find? (Place.isListed files) := by
  have hfor : isFor id = fun name => decide (name ∈ endings.map fun e => id ++ "." ++ e) := by
    funext name
    rw [Bool.eq_iff_iff, isFor_iff, decide_eq_true_iff, List.mem_map]
    simp [hid, eq_comm]
  have hdirectory : ∀ d, ((entriesIn files d).find? fun p => isFor id p.name) =
      (endings.map fun e => (⟨d, id ++ "." ++ e⟩ : Place)).find? (Place.isListed files) := by
    intro d
    have hfirst := find?_mem_comm (pairwise_list? files d) (pairwise_names id)
    have hplaces : (endings.map fun e => (⟨d, id ++ "." ++ e⟩ : Place)) =
        (endings.map fun e => id ++ "." ++ e).map (⟨d, ·⟩) := List.map_map.symm
    rw [entriesIn, hplaces, List.find?_map, List.find?_map, hfor]
    exact congrArg _ hfirst
  induction directories with
  | nil => rfl
  | cons d rest ih =>
      rw [List.flatMap_cons, List.find?_append, ih, hdirectory]
      exact List.find?_append.symm

/-- **What is listed for the user under an id.** -/
theorem find?_users (files : FileStore) (id : String) (directories : List String) :
    (users files directories).find? (·.id = id) = (listedFile? files id directories).map
      fun path => ⟨id, (nameAt? files path).getD id, .user⟩ := by
  rw [users_eq, find?_foldl_listEntry, List.find?_nil, Option.none_or, listedFile?]
  by_cases hid : id = ""
  · have hnone : ((directories.flatMap (entriesIn files)).find? fun p => isFor id p.name) = none :=
      List.find?_eq_none.mpr fun p _ hfor => (isFor_iff.mp hfor).1 hid
    rw [if_pos hid, hnone]
    rfl
  · rw [if_neg hid, find?_entries hid, Option.map_map]
    refine Option.map_congr fun p hp => ?_
    obtain ⟨d, -, hplace⟩ := List.mem_flatMap.mp (List.mem_of_find?_eq_some hp)
    obtain ⟨e, he, rfl⟩ := List.mem_map.mp hplace
    have hstem : Path.stem (id ++ "." ++ e) = id :=
      congrArg Prod.fst (Path.splitName_append hid (dot_not_mem_ending he))
    simp only [listingOf, hstem]
    rfl

/-! ## The whole list -/

theorem list_eq (files : FileStore) (directories : List String) : list files directories =
    users files directories ++
      (builtins.filter fun entry => !(users files directories).any (·.id = entry.1)).map
        fun entry => ⟨entry.1, entry.2.name, .builtin⟩ := rfl

theorem nodup_users (files : FileStore) (directories : List String) :
    ((users files directories).map Listing.id).Nodup := by
  have hnone : (([] : List Listing).map Listing.id).Nodup := List.nodup_nil
  rw [users_eq]
  exact nodup_foldl_listEntry hnone _

theorem nodup_builtins : (builtins.map Prod.fst).Nodup := by
  decide

/-- **No id is listed twice.** -/
theorem nodup_list (files : FileStore) (directories : List String) :
    ((list files directories).map Listing.id).Nodup := by
  rw [list_eq, List.map_append, List.map_map, List.nodup_append]
  refine ⟨nodup_users files directories, nodup_builtins.sublist (List.filter_sublist.map _), ?_⟩
  rintro id hid _ hother rfl
  obtain ⟨entry, hbuiltin, rfl⟩ := List.mem_map.mp hother
  obtain ⟨l, hl, hsame⟩ := List.mem_map.mp hid
  have hold : (users files directories).any (·.id = entry.1) = true :=
    List.any_eq_true.mpr ⟨l, hl, decide_eq_true hsame⟩
  have hnew := (List.mem_filter.mp hbuiltin).2
  rw [hold] at hnew
  cases hnew

/-- In a list that has no id twice, the one theme of an id is found by it. -/
theorem find?_id_eq_some_iff {listed : List Listing} (hnodup : (listed.map Listing.id).Nodup)
    {l : Listing} : listed.find? (·.id = l.id) = some l ↔ l ∈ listed := by
  induction listed with
  | nil => simp
  | cons first rest ih =>
      rw [List.map_cons, List.nodup_cons] at hnodup
      rw [List.find?_cons]
      by_cases hfirst : first.id = l.id
      · have hrest : l ∉ rest := fun hmem =>
          hnodup.1 (hfirst ▸ List.mem_map_of_mem hmem)
        simp [hfirst, hrest, eq_comm]
      · have hne : l ≠ first := fun heq => hfirst (heq ▸ rfl)
        simp [hfirst, hne, ih hnodup.2]

/-- **What a list says of an id**: it names the user's theme, if the directories
list something of such a name, and else the built-in one, if there is one. -/
theorem find?_list (files : FileStore) (id : String) (directories : List String) :
    (list files directories).find? (·.id = id) =
      ((listedFile? files id directories).map fun path =>
        ⟨id, (nameAt? files path).getD id, .user⟩).or
      ((builtin? id).map fun s => ⟨id, s.name, .builtin⟩) := by
  rw [← find?_users]
  cases huser : (users files directories).find? (·.id = id) with
  | some l => rw [list_eq, List.find?_append, huser, Option.some_or, Option.some_or]
  | none =>
      have hnew : ∀ l ∈ users files directories, l.id ≠ id := fun l hl hid =>
        List.find?_eq_none.mp huser l hl (decide_eq_true hid)
      rw [Option.none_or]
      cases hbuiltin : builtin? id with
      | none =>
          have hkey : id ∉ builtins.map Prod.fst := lookup_eq_none_iff_not_mem.mp hbuiltin
          refine List.find?_eq_none.mpr fun l hl hid => ?_
          rw [list_eq, List.mem_append] at hl
          rcases hl with hl | hl
          · exact hnew l hl (of_decide_eq_true hid)
          · obtain ⟨entry, hentry, rfl⟩ := List.mem_map.mp hl
            exact hkey (List.mem_map.mpr
              ⟨entry, (List.mem_filter.mp hentry).1, of_decide_eq_true hid⟩)
      | some s =>
          have hentry : (id, s) ∈ builtins := (lookup_eq_some_iff_mem nodup_builtins).mp hbuiltin
          have hlisted : (⟨id, s.name, .builtin⟩ : Listing) ∈ list files directories := by
            rw [list_eq]
            refine List.mem_append_right _ (List.mem_map.mpr ⟨(id, s), ?_, rfl⟩)
            exact List.mem_filter.mpr ⟨hentry, by simpa using hnew⟩
          exact (find?_id_eq_some_iff (nodup_list files directories)).mpr hlisted

theorem mem_ids_list_iff : id ∈ (list files directories).map Listing.id ↔
    (listedFile? files id directories).isSome = true ∨ (builtin? id).isSome = true := by
  have hfind : id ∈ (list files directories).map Listing.id ↔
      ((list files directories).find? (·.id = id)).isSome = true := by
    simp [List.find?_isSome]
  rw [hfind, find?_list]
  simp

theorem exists_user_iff : (∃ l ∈ list files directories, l.id = id ∧ l.origin = .user) ↔
    (listedFile? files id directories).isSome = true := by
  have hfind : (∃ l ∈ list files directories, l.id = id ∧ l.origin = .user) ↔
      ∃ l, (list files directories).find? (·.id = id) = some l ∧ l.origin = .user := by
    constructor
    · rintro ⟨l, hl, rfl, hl'⟩
      exact ⟨l, (find?_id_eq_some_iff (nodup_list files directories)).mpr hl, hl'⟩
    · rintro ⟨l, hl, hl'⟩
      exact ⟨l, List.mem_of_find?_eq_some hl, by simpa using List.find?_some hl, hl'⟩
  rw [hfind, find?_list]
  cases listedFile? files id directories with
  | some path => simp
  | none => cases builtin? id <;> simp

/-! ## Looking for a file -/

theorem findFile?_eq (hsafe : isSafeId id = true) : findFile? files id directories =
    ((places id directories).find? fun p => files.isFile p.path).map Place.path := by
  rw [findFile?, if_pos hsafe, candidates_eq, List.find?_map]
  rfl

theorem isSome_findFile?_iff : (findFile? files id directories).isSome = true ↔
    isSafeId id = true ∧ ∃ path ∈ candidates id directories, files.isFile path = true := by
  unfold findFile?
  cases isSafeId id with
  | true => simp [List.find?_isSome]
  | false => simp

/-- **A file for an id** is listed by its directory. -/
theorem isListed_of_isFile (hsafe : isSafeId id = true) (hdirectories : "" ∉ directories)
    {p : Place} (hp : p ∈ places id directories) (hfile : files.isFile p.path = true) :
    p.isListed files = true := by
  obtain ⟨d, hd, hplace⟩ := List.mem_flatMap.mp hp
  obtain ⟨e, he, rfl⟩ := List.mem_map.mp hplace
  have hslash : ∀ e ∈ endings, '/' ∉ e.toList := by decide
  have hname : '/' ∉ (id ++ "." ++ e).toList := by
    simp [slash_not_mem_of_isSafeId hsafe, hslash e he]
  have hdirectory : d ≠ "" := fun hempty => hdirectories (hempty ▸ hd)
  exact decide_eq_true (FileStore.mem_list?_of_isFile hdirectory hname hfile)

theorem isSome_listedFile?_iff : (listedFile? files id directories).isSome = true ↔
    id ≠ "" ∧ ∃ p ∈ places id directories, p.isListed files = true := by
  unfold listedFile?
  by_cases hid : id = ""
  · simp [hid]
  · rw [if_neg hid, Option.isSome_map, List.find?_isSome]
    exact (and_iff_right hid).symm

/-- What is found is listed, though not necessarily as the file of its id. -/
theorem isSome_listedFile?_of_findFile? (hdirectories : "" ∉ directories)
    (hfound : (findFile? files id directories).isSome = true) :
    (listedFile? files id directories).isSome = true := by
  have hsafe : isSafeId id = true := isSafeId_of_findFile? hfound
  rw [findFile?_eq hsafe, Option.isSome_map, List.find?_isSome] at hfound
  obtain ⟨p, hp, hfile⟩ := hfound
  exact isSome_listedFile?_iff.mpr
    ⟨ne_empty_of_isSafeId hsafe, p, hp, isListed_of_isFile hsafe hdirectories hp hfile⟩

/-- **A listed file is the one that is found**, if it is a file and its id is safe. -/
theorem findFile?_of_listedFile? (hdirectories : "" ∉ directories) {path : String}
    (hlisted : listedFile? files id directories = some path) (hsafe : isSafeId id = true)
    (hfile : files.isFile path = true) : findFile? files id directories = some path := by
  rw [listedFile?, if_neg (ne_empty_of_isSafeId hsafe), Option.map_eq_some_iff] at hlisted
  obtain ⟨p, hfirst, rfl⟩ := hlisted
  obtain ⟨-, before, behind, hplaces, hbefore⟩ := List.find?_eq_some_iff_append.mp hfirst
  rw [findFile?_eq hsafe, Option.map_eq_some_iff]
  refine ⟨p, List.find?_eq_some_iff_append.mpr ⟨hfile, before, behind, hplaces, ?_⟩, rfl⟩
  intro other hother
  have hmem : other ∈ places id directories := hplaces ▸ List.mem_append_left _ hother
  rw [Bool.not_eq_true', Bool.eq_false_iff]
  intro hotherFile
  have hnot := hbefore other hother
  rw [isListed_of_isFile hsafe hdirectories hmem hotherFile] at hnot
  cases hnot

/-- A list agrees with looking for an id exactly if something is listed for the
id just when a file is found. -/
theorem agrees_iff : Agrees files directories id ↔
    ((listedFile? files id directories).isSome = true ↔
      (findFile? files id directories).isSome = true) := by
  constructor
  · rintro ⟨-, huser⟩
    rw [← huser, exists_user_iff]
  · intro h
    refine ⟨?_, exists_user_iff.trans h⟩
    rw [(nodup_list files directories).count]
    simp only [mem_ids_list_iff, h, isKnown, Bool.or_eq_true, or_comm]

/-- If no directory is the empty path, a list disagrees with looking only for an
id that is not safe, or for which no file is found. -/
theorem agrees_iff_of_listed (hdirectories : "" ∉ directories) : Agrees files directories id ↔
    ((listedFile? files id directories).isSome = true →
      isSafeId id = true ∧ ∃ path ∈ candidates id directories, files.isFile path = true) := by
  rw [agrees_iff, ← isSome_findFile?_iff]
  exact ⟨Iff.mp, fun h => ⟨h, isSome_listedFile?_of_findFile? hdirectories⟩⟩

/-- **Where a list agrees with looking.**  Whatever the files and the directories
are, no id is listed twice.  An id is listed as the user's exactly if something
of a name for it lies in a directory, and then with the name that the first such
thing gives; else it is listed as built in if there is such a theme.  So the list
agrees with looking for the id exactly if there is such a thing just when a file
is found.  If no directory is the empty path, this means that there is such a
thing only if the id is safe and one of its candidates is a file; and the first
such thing is what is found, if it is a file and the id is safe. -/
theorem list_agrees_iff (files : FileStore) (directories : List String) (id : String) :
    ((list files directories).map Listing.id).Nodup ∧
    (list files directories).find? (·.id = id) =
      ((listedFile? files id directories).map fun path =>
        ⟨id, (nameAt? files path).getD id, .user⟩).or
      ((builtin? id).map fun s => ⟨id, s.name, .builtin⟩) ∧
    (Agrees files directories id ↔ ((listedFile? files id directories).isSome = true ↔
      (findFile? files id directories).isSome = true)) ∧
    ("" ∉ directories →
      (Agrees files directories id ↔ ((listedFile? files id directories).isSome = true →
        isSafeId id = true ∧ ∃ path ∈ candidates id directories, files.isFile path = true)) ∧
      ∀ path, listedFile? files id directories = some path → isSafeId id = true →
        files.isFile path = true → findFile? files id directories = some path) :=
  ⟨nodup_list files directories, find?_list files id directories, agrees_iff,
    fun hdirectories => ⟨agrees_iff_of_listed hdirectories,
      fun _ hlisted hsafe hfile => findFile?_of_listedFile? hdirectories hlisted hsafe hfile⟩⟩

/-- A directory with the name of a theme file, and a theme file with a blank in
its name. -/
theorem not_agrees_of_directory :
    let files : FileStore :=
      { entries := [(["themes"], .directory), (["themes", "monokai.yaml"], .directory),
          (["themes", "my theme.yaml"], .file "name: Mine".toUTF8)] }
    ¬ Agrees files ["/themes"] "monokai" ∧ ¬ Agrees files ["/themes"] "my theme" := by
  intro files
  have hparts : Path.parts (Path.join files.workingDirectory "/themes") = ["", "themes"] := by
    decide +kernel
  have hresolve : files.resolve "/themes" = .ok ["themes"] := by
    refine FileStore.resolve_eq_ok_iff.mpr ⟨by decide, ?_⟩
    rw [hparts]
    rfl
  have hentries : ∀ id ∈ ["monokai", "my theme"],
      id ≠ "" ∧ ["themes", id ++ "." ++ "yaml"] ∈ files.entries.map Prod.fst := by
    decide
  have hfound : ∀ id ∈ ["monokai", "my theme"], findFile? files id ["/themes"] = none := by
    decide +kernel
  have hnot : ∀ id ∈ ["monokai", "my theme"], ¬ Agrees files ["/themes"] id := by
    intro id hid hagrees
    obtain ⟨hne, hentry⟩ := hentries id hid
    have hplace : Place.mk "/themes" (id ++ "." ++ "yaml") ∈ places id ["/themes"] :=
      List.mem_cons_self
    have hlisted : (Place.mk "/themes" (id ++ "." ++ "yaml")).isListed files = true :=
      decide_eq_true (FileStore.mem_list?_iff.mpr ⟨["themes"], hresolve, by decide, hentry⟩)
    have hsome := (agrees_iff.mp hagrees).mp (isSome_listedFile?_iff.mpr ⟨hne, _, hplace, hlisted⟩)
    rw [hfound id hid] at hsome
    cases hsome
  exact ⟨hnot _ (by decide), hnot _ (by decide)⟩

end CodeFence.Theme
