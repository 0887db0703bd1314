import CodeFence.Proofs.ThemeFiles

/-!
# Equal paths

A path may be written in many ways: with slashes at its end or several of them in a
row, and with single dots between them.  Paths that are made of the same components
lead to the same files, so a theme is the same wherever one of them is searched.

* `Path.eq_of_components` — what is the same in equal paths;
* `follow_filter` — empty parts and single dots in front of a name lead nowhere else;
* `get_join` — a name in equal directories is the same file;
* `load_of_components` — themes are the same in equal directories.
-/

namespace CodeFence

/-- No piece between separators has one inside. -/
theorem Text.not_mem_of_mem_splitAt {sep : Char} {cs piece : List Char}
    (h : piece ∈ Text.splitAt sep cs) : sep ∉ piece := by
  induction cs generalizing piece with
  | nil =>
      obtain rfl : piece = [] := List.mem_singleton.mp h
      exact List.not_mem_nil
  | cons c rest ih =>
      rw [Text.splitAt_cons] at h
      cases hpieces : Text.splitAt sep rest with
      | nil => exact absurd hpieces (Text.splitWhere_ne_nil _ rest)
      | cons first others =>
          rw [hpieces] at h ih
          have hfirst := ih List.mem_cons_self
          by_cases hc : c = sep
          · have hcut : piece ∈ [] :: first :: others := by simpa [Text.consPiece, hc] using h
            rcases List.mem_cons.mp hcut with rfl | hold
            · exact List.not_mem_nil
            · exact ih hold
          · have hlonger : piece ∈ (c :: first) :: others := by
              simpa [Text.consPiece, hc] using h
            rcases List.mem_cons.mp hlonger with rfl | hold
            · simp [hfirst, Ne.symm hc]
            · exact ih (List.mem_cons_of_mem first hold)

namespace Path

variable {path other directory name : String}

/-- A part of a path that names what lies in the directory before it, or leads
upward. -/
abbrev leads (part : String) : Bool :=
  part ≠ "" && part ≠ "."

theorem slash_not_mem_of_mem_names (h : name ∈ names path) : '/' ∉ name.toList := by
  obtain ⟨piece, hpiece, rfl⟩ := List.mem_map.mp (List.mem_filter.mp h).1
  rw [String.toList_ofList]
  exact Text.not_mem_of_mem_splitAt hpiece

theorem isAbsolute_iff_components :
    isAbsolute path = true ↔ (components path).head? = some "/" := by
  unfold components
  cases habsolute : isAbsolute path with
  | true => simp
  | false =>
      have hnames : (names path).head? ≠ some "/" := by
        intro h
        exact absurd (slash_not_mem_of_mem_names (List.mem_of_head? h)) (by decide)
      by_cases hdot : (parts path).head? = some "."
      · simp [hdot]
      · simp [hdot, hnames]

theorem names_eq_filter_components :
    names path = (components path).filter fun c => c ≠ "/" && c ≠ "." := by
  have hnames : (names path).filter (fun c => c ≠ "/" && c ≠ ".") = names path := by
    rw [List.filter_eq_self]
    intro name hname
    have hslash : name ≠ "/" := by
      intro heq
      subst heq
      exact absurd (slash_not_mem_of_mem_names hname) (by decide)
    have hdot : name ≠ "." := by
      have hkept := (List.mem_filter.mp hname).2
      rw [Bool.and_eq_true] at hkept
      exact of_decide_eq_true hkept.2
    simp [hslash, hdot]
  rw [components, List.filter_append, hnames]
  split
  · rfl
  · split <;> rfl

/-- **Equal paths** are both absolute or both not, and lead along the same names. -/
theorem eq_of_components (h : components path = components other) :
    isAbsolute path = isAbsolute other ∧ names path = names other := by
  constructor
  · rw [Bool.eq_iff_iff, isAbsolute_iff_components, isAbsolute_iff_components, h]
  · rw [names_eq_filter_components, names_eq_filter_components, h]

/-- A name in a directory comes behind the names of the directory. -/
theorem names_join (directory : String) (hslash : '/' ∉ name.toList) (hname : leads name = true) :
    names (join directory name) = names directory ++ [name] := by
  have hlast : [name].filter leads = [name] := List.filter_cons_of_pos hname
  by_cases hempty : directory = ""
  · have hjoin : join directory name = name := by
      rw [hempty, join]
      simp
    rw [hjoin, hempty, names, parts_of_no_slash hslash]
    exact hlast
  · have hself : ∀ path, join "" path = path := by
      intro path
      rw [join]
      simp
    have hparts := parts_join_name "" hempty hslash
    rw [hself, hself] at hparts
    unfold names
    rcases hparts with ⟨lead, hlead, hjoined⟩ | hjoined
    · rw [hjoined, hlead, List.filter_append, List.filter_append]
      have hstop : [""].filter leads = [] := rfl
      change _ ++ [name].filter leads = _ ++ [""].filter leads ++ [name]
      rw [hlast, hstop, List.append_nil]
    · rw [hjoined, List.filter_append]
      exact congrArg (_ ++ ·) hlast

theorem isAbsolute_join (directory : String) (hslash : '/' ∉ name.toList) :
    isAbsolute (join directory name) = isAbsolute directory := by
  have hname := isAbsolute_of_no_slash hslash
  by_cases hempty : directory = ""
  · rw [hempty, join, hname]
    exact hname
  · unfold join
    rw [hname, Bool.false_or, if_neg (by simpa using hempty)]
    split
    · exact isAbsolute_append hempty name
    · rw [String.append_assoc]
      exact isAbsolute_append hempty _

end Path

namespace FileStore

variable {s : FileStore} {directory other name : String}

/-- Empty parts and single dots in front of a name lead nowhere else: whether there
is a directory to stay in, the name asks as well. -/
theorem follow_filter (s : FileStore) (here front : List String) (name : String) :
    s.follow here (front ++ [name]) = s.follow here (front.filter Path.leads ++ [name]) := by
  induction front generalizing here with
  | nil => rfl
  | cons part rest ih =>
      by_cases hstay : part = "" ∨ part = "."
      · have hleads : ¬ Path.leads part = true := by
          rcases hstay with rfl | rfl <;> decide
        rw [List.filter_cons_of_neg hleads, ← ih here, List.cons_append, follow]
        obtain ⟨next, behind, hrest⟩ : ∃ next behind, rest ++ [name] = next :: behind :=
          List.exists_cons_of_ne_nil (by simp)
        cases hhere : s.find? here with
        | none => rw [hrest, follow, hhere]
        | some entry =>
            cases entry with
            | file content => rw [hrest, follow, hhere]
            | directory => exact if_pos hstay
      · have hleads : Path.leads part = true := by
          rw [not_or] at hstay
          simp [Path.leads, hstay]
        rw [List.filter_cons_of_pos hleads, List.cons_append, List.cons_append, follow, follow]
        simp only [ih]

/-- Where a path that ends in a name leads is settled by its names and by whether it
is absolute. -/
theorem resolve_of_names {path other : String}
    (habsolute : Path.isAbsolute path = Path.isAbsolute other)
    (hnames : Path.names path = Path.names other) (hname : Path.leads name = true)
    (hpath : ∃ front, Path.parts path = front ++ [name])
    (hother : ∃ front, Path.parts other = front ++ [name]) :
    s.resolve path = s.resolve other := by
  have hne : ∀ p, (∃ front, Path.parts p = front ++ [name]) → p ≠ "" := by
    intro p hp hempty
    obtain ⟨front, hfront⟩ := hp
    subst hempty
    have hparts : front ++ [name] = [""] := hfront.symm
    have hmem : name ∈ [""] := hparts ▸ List.mem_append_right front (List.mem_singleton_self name)
    obtain rfl := List.mem_singleton.mp hmem
    cases hname
  obtain ⟨lead, hlead⟩ : ∃ lead, ∀ p, Path.isAbsolute p = Path.isAbsolute path →
      Path.parts (Path.join s.workingDirectory p) = lead ++ Path.parts p := by
    cases hkind : Path.isAbsolute path with
    | true =>
        refine ⟨[], fun p hp => ?_⟩
        rw [Path.join, hp, Bool.true_or, if_pos rfl, List.nil_append]
    | false => exact Path.parts_join_relative s.workingDirectory
  have hfollow : ∀ p, Path.isAbsolute p = Path.isAbsolute path →
      (∃ front, Path.parts p = front ++ [name]) →
      s.resolve p = s.follow [] (lead.filter Path.leads ++ Path.names p) := by
    intro p hp hend
    obtain ⟨front, hfront⟩ := hend
    have hkept : Path.names p = front.filter Path.leads ++ [name] := by
      rw [Path.names, hfront, List.filter_append]
      exact congrArg _ (List.filter_cons_of_pos hname)
    rw [resolve, if_neg (hne p ⟨front, hfront⟩), hlead p hp, hfront, ← List.append_assoc,
      follow_filter, hkept, List.filter_append, List.append_assoc]
  rw [hfollow path rfl hpath, hfollow other habsolute.symm hother, hnames]

/-- **A name in equal directories** is the same file. -/
theorem get_join (h : Path.components directory = Path.components other)
    (hslash : '/' ∉ name.toList) (hname : Path.leads name = true) :
    s.get (Path.join directory name) = s.get (Path.join other name) := by
  obtain ⟨habsolute, hnames⟩ := Path.eq_of_components h
  have hend : ∀ d, ∃ front, Path.parts (Path.join d name) = front ++ [name] := by
    intro d
    obtain ⟨front, hfront⟩ := Path.parts_join d name
    exact ⟨front, by rw [hfront, Path.parts_of_no_slash hslash]⟩
  have hresolve : s.resolve (Path.join directory name) = s.resolve (Path.join other name) := by
    apply resolve_of_names _ _ hname (hend directory) (hend other)
    · rw [Path.isAbsolute_join directory hslash, Path.isAbsolute_join other hslash, habsolute]
    · rw [Path.names_join directory hslash hname, Path.names_join other hslash hname, hnames]
  rw [get, get, hresolve]

end FileStore

namespace Theme

variable {files : FileStore} {id : String} {directories others : List String}

theorem get_candidates (files : FileStore) (hid : IsThemeId id)
    (h : directories.map Path.components = others.map Path.components) :
    (candidates id directories).map files.get = (candidates id others).map files.get := by
  induction directories generalizing others with
  | nil =>
      obtain rfl : others = [] := List.map_eq_nil_iff.mp h.symm
      rfl
  | cons d rest ih =>
      cases others with
      | nil => cases h
      | cons d' rest' =>
          rw [List.map_cons, List.map_cons, List.cons.injEq] at h
          have hfirst : (endings.map fun e => Path.join d (id ++ "." ++ e)).map files.get =
              (endings.map fun e => Path.join d' (id ++ "." ++ e)).map files.get := by
            rw [List.map_map, List.map_map]
            refine List.map_congr_left fun e he => ?_
            have hplace : Place.mk d (id ++ "." ++ e) ∈ places id [d] :=
              mem_places_iff.mpr ⟨List.mem_singleton_self d, e, he, rfl⟩
            obtain ⟨hslash, hempty, hdot, -⟩ := plain_name hid hplace
            exact FileStore.get_join h.1 hslash (by simp [hempty, hdot])
          have hrest := ih h.2
          unfold candidates at hrest ⊢
          rw [List.flatMap_cons, List.flatMap_cons, List.map_append, List.map_append, hfirst, hrest]

/-- Whether a path that was followed leads to a file. -/
def isFoundFile : Except FileError FileEntry → Bool
  | .ok (.file _) => true
  | _ => false

/-- What is found in equal directories is the same file. -/
theorem get_findFile? (files : FileStore) (id : String)
    (h : directories.map Path.components = others.map Path.components) :
    (findFile? files id directories).map files.get =
      (findFile? files id others).map files.get := by
  unfold findFile?
  by_cases hsafe : isSafeId id = true
  · have hcandidates := get_candidates files (isSafeId_iff.mp hsafe) h
    have hfind : ∀ ds, ((candidates id ds).find? files.isFile).map files.get =
        ((candidates id ds).map files.get).find? isFoundFile := by
      intro ds
      rw [List.find?_map]
      rfl
    rw [if_pos hsafe, if_pos hsafe, hfind, hfind, hcandidates]
  · rw [if_neg hsafe, if_neg hsafe]

/-- **Themes are the same in equal directories.**  If a file is found that is no text,
the path that the error names may be written otherwise. -/
theorem load_of_components (files : FileStore) (id : String)
    (h : directories.map Path.components = others.map Path.components) :
    load files id directories = load files id others ∨
      ∃ path path', load files id directories = .error (.unreadable id path) ∧
        load files id others = .error (.unreadable id path') := by
  have hget := get_findFile? files id h
  unfold load
  cases hfound : findFile? files id directories with
  | none =>
      cases hother : findFile? files id others with
      | none => exact Or.inl rfl
      | some path' =>
          rw [hfound, hother] at hget
          cases hget
  | some path =>
      cases hother : findFile? files id others with
      | none =>
          rw [hfound, hother] at hget
          cases hget
      | some path' =>
          rw [hfound, hother] at hget
          have hsame : files.get path = files.get path' := Option.some.inj hget
          have hread : files.readText path = files.readText path' := by
            rw [FileStore.readText, FileStore.readText, FileStore.read, FileStore.read, hsame]
          dsimp only
          rw [hread]
          cases files.readText path' with
          | ok text => exact Or.inl rfl
          | error e => exact Or.inr ⟨path, path', rfl, rfl⟩

theorem load_eq_ok_of_components {t : Theme}
    (h : directories.map Path.components = others.map Path.components) :
    load files id directories = .ok t ↔ load files id others = .ok t := by
  rcases load_of_components files id h with hsame | ⟨path, path', hpath, hpath'⟩
  · rw [hsame]
  · rw [hpath, hpath']
    simp

end Theme

end CodeFence
