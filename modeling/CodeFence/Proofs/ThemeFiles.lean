import CodeFence.Engine.Bundled
import CodeFence.Proofs.ThemeListing

/-!
# The file of a theme

An id becomes the name of a file, and it comes from documents that anyone may have
written.  It is refused if it could lead anywhere but to a name directly in a
directory.  Of the files that an id can name, the first one in the order of the
directories is taken.  Whoever asks for the theme reads that file, or else the
built-in theme, and is told that there is none exactly if the id is not known.

* `IsThemeId`, `isSafeId_iff` — ids that are not refused;
* `Place.Holds` — a file directly in a directory;
* `resolve_path`, `isFile_path_iff` — the path of a place leads to no other file;
* `IsFound`, `findFile?_eq_some_iff` — which file is found;
* `load_of_holds`, `load_eq_notFound_iff` — what is read, and when there is nothing;
* `themeFile_exact` — all this together, also for the engine.
-/

namespace CodeFence

open FileStore (directoryPath)

/-- A fold that fails does so at some step. -/
theorem exists_of_foldlM_error {ε α β : Type} {f : β → α → Except ε β} {b : β} {items : List α}
    {e : ε} (h : items.foldlM f b = .error e) : ∃ b a, f b a = .error e := by
  induction items generalizing b with
  | nil => cases h
  | cons a rest ih =>
      rw [List.foldlM_cons] at h
      rcases bind_eq_error_iff.mp h with hfirst | ⟨b', -, hrest⟩
      · exact ⟨b, a, hfirst⟩
      · exact ih hrest

namespace Theme

variable {files : FileStore} {id path : String} {directories here : List String} {p : Place}
  {content : ByteArray}

/-! ## Ids -/

/-- An id that is made of letters, digits and a few marks, without two dots in a row. -/
structure IsThemeId (id : String) : Prop where
  ne_empty : id ≠ ""
  chars : ∀ c ∈ id.toList, c.isAlphanum = true ∨ c = '-' ∨ c = '_' ∨ c = '.'
  no_dots : ¬ ['.', '.'] <:+: id.toList

theorem isSafeId_iff : isSafeId id = true ↔ IsThemeId id := by
  have hdots : (!Text.contains ['.', '.'] id.toList) = true ↔ ¬ ['.', '.'] <:+: id.toList := by
    rw [Bool.not_eq_true', ← Bool.not_eq_true, Text.contains_iff]
  have hempty : (!id.isEmpty) = true ↔ id ≠ "" := by simp
  rw [isSafeId, Bool.and_eq_true, Bool.and_eq_true, hdots, hempty, List.all_eq_true]
  simp only [Bool.or_eq_true, decide_eq_true_eq, or_assoc]
  exact ⟨fun h => ⟨h.1.1, h.1.2, h.2⟩, fun h => ⟨⟨h.ne_empty, h.chars⟩, h.no_dots⟩⟩

/-! ## Files -/

/-- A place holds a file: its directory leads along some names to a directory, and the
file has the name of the place directly in there. -/
structure Place.Holds (files : FileStore) (p : Place) (here : List String)
    (content : ByteArray) : Prop where
  leads : files.resolve (directoryPath p.directory) = .ok here
  directory : files.find? here = some .directory
  file : files.find? (here ++ [p.name]) = some (.file content)

theorem mem_places_iff : p ∈ places id directories ↔
    p.directory ∈ directories ∧ ∃ e ∈ endings, p.name = id ++ "." ++ e := by
  rw [places, List.mem_flatMap]
  constructor
  · rintro ⟨d, hd, hplace⟩
    obtain ⟨e, he, rfl⟩ := List.mem_map.mp hplace
    exact ⟨hd, e, he, rfl⟩
  · rintro ⟨hd, e, he, hname⟩
    exact ⟨p.directory, hd, List.mem_map.mpr ⟨e, he, by rw [← hname]⟩⟩

/-- The name of a place is no way out of its directory. -/
theorem plain_name (hid : IsThemeId id) (hp : p ∈ places id directories) :
    '/' ∉ p.name.toList ∧ p.name ≠ "" ∧ p.name ≠ "." ∧ p.name ≠ ".." := by
  obtain ⟨-, e, he, hname⟩ := mem_places_iff.mp hp
  have hslash : ∀ e ∈ endings, '/' ∉ e.toList := by decide
  have hlong : ∀ e ∈ endings, 2 ≤ e.length := by decide
  have hlength : 2 < p.name.length := by
    have hdot : ".".length = 1 := rfl
    have hending := hlong e he
    rw [hname, String.length_append, String.length_append, hdot]
    omega
  have hlonger : ∀ short : String, short.length ≤ 2 → p.name ≠ short := by
    rintro _ hshort rfl
    omega
  refine ⟨?_, hlonger "" (by decide), hlonger "." (by decide), hlonger ".." (by decide)⟩
  rw [hname]
  simp [slash_not_mem_of_isSafeId (isSafeId_iff.mpr hid), hslash e he]

/-- **The path of a place** leads to the name directly in the directory. -/
theorem resolve_path (hid : IsThemeId id) (hp : p ∈ places id directories)
    (h : p.Holds files here content) : files.resolve p.path = .ok (here ++ [p.name]) := by
  obtain ⟨hslash, hplain⟩ := plain_name hid hp
  exact FileStore.resolve_join hslash hplain h.leads h.directory

theorem get_path (hid : IsThemeId id) (hp : p ∈ places id directories)
    (h : p.Holds files here content) : files.get p.path = .ok (.file content) :=
  FileStore.get_eq_ok_iff.mpr ⟨_, resolve_path hid hp h, h.file⟩

/-- **The path of a place is that of a file** exactly if the place holds one. -/
theorem isFile_path_iff (hid : IsThemeId id) (hp : p ∈ places id directories) :
    files.isFile p.path = true ↔ ∃ here content, p.Holds files here content := by
  constructor
  · intro h
    obtain ⟨content, hget⟩ := FileStore.isFile_iff.mp h
    obtain ⟨names, hresolve, hfile⟩ := FileStore.get_eq_ok_iff.mp hget
    obtain ⟨here, hleads, hhere, rfl⟩ :=
      FileStore.exists_directory_of_file (plain_name hid hp).1 hresolve hfile
    exact ⟨here, content, hleads, hhere, hfile⟩
  · rintro ⟨here, content, hholds⟩
    exact FileStore.isFile_iff.mpr ⟨content, get_path hid hp hholds⟩

/-- The file that is found for an id: the first one in the order of the directories,
and in each of them of the endings. -/
structure IsFound (files : FileStore) (id : String) (directories : List String) (p : Place)
    (here : List String) (content : ByteArray) : Prop where
  safe : IsThemeId id
  first : ∃ before behind, places id directories = before ++ p :: behind ∧
    ∀ q ∈ before, ¬ ∃ here content, q.Holds files here content
  holds : p.Holds files here content

theorem IsFound.mem_places (h : IsFound files id directories p here content) :
    p ∈ places id directories := by
  obtain ⟨before, behind, hplaces, -⟩ := h.first
  rw [hplaces]
  exact List.mem_append_right _ List.mem_cons_self

/-- **Which file is found.** -/
theorem findFile?_eq_some_iff : findFile? files id directories = some path ↔
    ∃ p here content, IsFound files id directories p here content ∧ path = p.path := by
  constructor
  · intro h
    have hsafe : isSafeId id = true := isSafeId_of_findFile? (Option.isSome_of_mem h)
    have hid := isSafeId_iff.mp hsafe
    rw [findFile?_eq hsafe, Option.map_eq_some_iff] at h
    obtain ⟨p, hfirst, rfl⟩ := h
    obtain ⟨hfile, before, behind, hplaces, hbefore⟩ := List.find?_eq_some_iff_append.mp hfirst
    obtain ⟨here, content, hholds⟩ :=
      (isFile_path_iff hid (List.mem_of_find?_eq_some hfirst)).mp hfile
    refine ⟨p, here, content, ⟨hid, ⟨before, behind, hplaces, fun q hq hheld => ?_⟩, hholds⟩, rfl⟩
    have hmem : q ∈ places id directories := hplaces ▸ List.mem_append_left _ hq
    have hnot := hbefore q hq
    rw [(isFile_path_iff hid hmem).mpr hheld] at hnot
    cases hnot
  · rintro ⟨p, here, content, hfound, rfl⟩
    have hid := hfound.safe
    have hfile := (isFile_path_iff hid hfound.mem_places).mpr ⟨here, content, hfound.holds⟩
    obtain ⟨before, behind, hplaces, hbefore⟩ := hfound.first
    rw [findFile?_eq (isSafeId_iff.mpr hid), Option.map_eq_some_iff]
    refine ⟨p, List.find?_eq_some_iff_append.mpr ⟨hfile, before, behind, hplaces, ?_⟩, rfl⟩
    intro q hq
    have hmem : q ∈ places id directories := hplaces ▸ List.mem_append_left _ hq
    rw [Bool.not_eq_true', ← Bool.not_eq_true, isFile_path_iff hid hmem]
    exact hbefore q hq

/-- **A file is found** exactly if some directory holds one that the id can name. -/
theorem exists_findFile?_iff : (∃ path, findFile? files id directories = some path) ↔
    IsThemeId id ∧ ∃ d ∈ directories, ∃ e ∈ endings, ∃ here content,
      Place.Holds files ⟨d, id ++ "." ++ e⟩ here content := by
  rw [← Option.isSome_iff_exists, isSome_findFile?_iff, isSafeId_iff, candidates_eq]
  refine and_congr_right fun hid => ?_
  constructor
  · rintro ⟨_, hcandidate, hfile⟩
    obtain ⟨p, hp, rfl⟩ := List.mem_map.mp hcandidate
    obtain ⟨here, content, hholds⟩ := (isFile_path_iff hid hp).mp hfile
    obtain ⟨hd, e, he, hname⟩ := mem_places_iff.mp hp
    exact ⟨p.directory, hd, e, he, here, content, by rw [← hname]; exact hholds⟩
  · rintro ⟨d, hd, e, he, hheld⟩
    have hp : Place.mk d (id ++ "." ++ e) ∈ places id directories :=
      mem_places_iff.mpr ⟨hd, e, he, rfl⟩
    exact ⟨_, List.mem_map_of_mem hp, (isFile_path_iff hid hp).mpr hheld⟩

/-! ## What is read -/

/-- The theme that a file says, by its bytes. -/
def ofContent (id path : String) (content : ByteArray) : Except ThemeError Theme :=
  match String.fromUTF8? content with
  | some text => parse id text
  | none => .error (.unreadable id path)

/-- **What is read** is the file that is found. -/
theorem load_of_isFound (h : IsFound files id directories p here content) :
    load files id directories = ofContent id p.path content := by
  have hfound : findFile? files id directories = some p.path :=
    findFile?_eq_some_iff.mpr ⟨p, here, content, h, rfl⟩
  have hread : files.read p.path = .ok content :=
    FileStore.read_eq_ok_iff.mpr (get_path h.safe h.mem_places h.holds)
  rw [load, hfound, ofContent]
  dsimp only
  rw [FileStore.readText, hread]
  cases hutf : String.fromUTF8? content with
  | some text => simp only [bind, Except.bind, hutf, pure, Except.pure]
  | none => simp only [bind, Except.bind, hutf, throw, throwThe, MonadExceptOf.throw]

/-- What a theme says can be at fault, but then there is a theme. -/
theorem ofSource_ne_notFound (id : String) (s : Source) (x : String) :
    ofSource id s ≠ .error (.notFound x) := by
  have hcolor : ∀ color : Except ColorError Color,
      color.mapError (ThemeError.color id) ≠ .error (.notFound x) := by
    intro color h
    cases color <;> cases h
  have hscopes : readScopes id s.scopes ≠ .error (.notFound x) := by
    intro h
    obtain ⟨done, ⟨scope, text⟩, hstep⟩ := exists_of_foldlM_error h
    dsimp only at hstep
    split at hstep <;> cases hstep
  intro h
  unfold ofSource at h
  rcases bind_eq_error_iff.mp h with h | ⟨background, -, h⟩
  · exact hcolor _ h
  rcases bind_eq_error_iff.mp h with h | ⟨foreground, -, h⟩
  · exact hcolor _ h
  rcases bind_eq_error_iff.mp h with h | ⟨scopes, -, h⟩
  · exact hscopes h
  rcases bind_eq_error_iff.mp h with h | ⟨lineNumber, -, h⟩
  · exact hcolor _ h
  rcases bind_eq_error_iff.mp h with h | ⟨highlightedLine, -, h⟩
  · exact hcolor _ h
  rcases bind_eq_error_iff.mp h with h | ⟨titleBackground, -, h⟩
  · exact hcolor _ h
  cases h

theorem ofContent_ne_notFound (id path : String) (content : ByteArray) (x : String) :
    ofContent id path content ≠ .error (.notFound x) := by
  unfold ofContent parse parseWith
  split
  · split
    · exact ofSource_ne_notFound _ _ x
    · simp
  · simp

/-- **There is no theme** exactly if the id is not known. -/
theorem load_eq_notFound_iff {x : String} : load files id directories = .error (.notFound x) ↔
    x = id ∧ isKnown files id directories = false := by
  unfold isKnown
  cases hfound : findFile? files id directories with
  | some path =>
      obtain ⟨p, here, content, hfirst, -⟩ := findFile?_eq_some_iff.mp hfound
      rw [load_of_isFound hfirst]
      simpa using ofContent_ne_notFound id p.path content x
  | none =>
      rw [load, hfound]
      dsimp only
      unfold ofBuiltin
      cases builtin? id with
      | some s => simpa using ofSource_ne_notFound id s x
      | none => simp [eq_comm]

end Theme

namespace Bundled

open Theme

/-- **What the engine holds** after it was asked for a theme: the one that it held
before, or else the one that is read. -/
theorem lookup_loadTheme (around : Surroundings) (id : String) (b : Bundled) :
    (loadTheme around id b).2.themes.lookup id =
      (b.themes.lookup id).or (load around.files id b.directories).toOption := by
  rcases loadTheme_cases around id b with
    ⟨t, hheld, heq⟩ | ⟨hnew, ⟨t, hload, heq⟩ | ⟨e, error, hload, heq, -⟩⟩
  · simp [heq, hheld]
  · simp [heq, hnew, hload, Except.toOption]
  · simp [heq, hnew, hload, Except.toOption]

/-- The engine has no theme for an id exactly if it holds none and the id is not
known. -/
theorem loadTheme_eq_notFound_iff {around : Surroundings} {id x : String} {b : Bundled} :
    (loadTheme around id b).1 = .error (.themeNotFound x) ↔
      x = id ∧ b.themes.lookup id = none ∧ isKnown around.files id b.directories = false := by
  rw [and_left_comm, ← load_eq_notFound_iff]
  rcases loadTheme_cases around id b with
    ⟨t, hheld, heq⟩ | ⟨hnew, ⟨t, hload, heq⟩ | ⟨e, error, hload, heq, herror⟩⟩
  · simp [heq, hheld]
  · simp [heq, hload]
  · simp [heq, hnew, hload, herror]

end Bundled

namespace Theme

/-- **The file of a theme.**  Whatever the id, the directories and the files are: a
file is found exactly if the id is not empty and is made of letters, digits and the
marks `-`, `_` and `.`, without two dots in a row, and some directory holds a file of
that name with an ending of theme files; and it is the first such file.  Its path
leads to the name directly in the directory that holds it.  Loading the theme reads
that file, and the built-in theme if there is none, and fails because there is no such
theme exactly if the id is not known.  The engine does the same in its own
directories, unless it holds the theme already. -/
theorem themeFile_exact (around : Surroundings) (id : String) (directories : List String)
    (b : Bundled) :
    let files := around.files
    ((∃ path, findFile? files id directories = some path) ↔
      IsThemeId id ∧ ∃ d ∈ directories, ∃ e ∈ endings, ∃ here content,
        Place.Holds files ⟨d, id ++ "." ++ e⟩ here content) ∧
    (∀ path, findFile? files id directories = some path ↔
      ∃ p here content, IsFound files id directories p here content ∧ path = p.path) ∧
    (∀ p here content, IsFound files id directories p here content →
      files.resolve p.path = .ok (here ++ [p.name]) ∧
        load files id directories = ofContent id p.path content) ∧
    (findFile? files id directories = none → load files id directories = ofBuiltin id) ∧
    (∀ x, load files id directories = .error (.notFound x) ↔
      x = id ∧ isKnown files id directories = false) ∧
    (Bundled.loadTheme around id b).2.themes.lookup id =
      (b.themes.lookup id).or (load files id b.directories).toOption ∧
    ∀ x, (Bundled.loadTheme around id b).1 = .error (.themeNotFound x) ↔
      x = id ∧ b.themes.lookup id = none ∧ isKnown files id b.directories = false := by
  intro files
  refine ⟨exists_findFile?_iff, fun path => findFile?_eq_some_iff, ?_, ?_,
    fun x => load_eq_notFound_iff, Bundled.lookup_loadTheme around id b,
    fun x => Bundled.loadTheme_eq_notFound_iff⟩
  · intro p here content hfound
    exact ⟨resolve_path hfound.safe hfound.mem_places hfound.holds, load_of_isFound hfound⟩
  · intro hnone
    rw [load, hnone]

/-- The empty id names no theme, though a directory may hold a file that has nothing
but an ending. -/
theorem not_found_of_empty_id :
    let files : FileStore :=
      { entries := [(["themes"], .directory), (["themes", ".yaml"], .file "name: None".toUTF8)] }
    (∀ c ∈ "".toList, c.isAlphanum = true ∨ c = '-' ∨ c = '_' ∨ c = '.') ∧
      ¬ ['.', '.'] <:+: "".toList ∧
      Place.Holds files ⟨"/themes", "" ++ "." ++ "yaml"⟩ ["themes"] "name: None".toUTF8 ∧
      findFile? files "" ["/themes"] = none := by
  intro files
  have hparts : Path.parts (Path.join files.workingDirectory "/themes") = ["", "themes"] := by
    decide +kernel
  have hresolve : files.resolve (directoryPath "/themes") = .ok ["themes"] := by
    refine FileStore.resolve_eq_ok_iff.mpr ⟨by decide, ?_⟩
    rw [directoryPath, if_neg (by decide), hparts]
    rfl
  exact ⟨by simp, by decide, ⟨hresolve, by decide, by decide⟩, rfl⟩

end Theme

end CodeFence
