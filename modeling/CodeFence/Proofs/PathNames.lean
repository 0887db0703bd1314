import CodeFence.Proofs.FileStores
import CodeFence.Proofs.TextCuts

/-!
# The names that a path leads along

A path that leads to a file ends in the name of that file, and the names before
it lead to a directory.  So the directory of the file is there, and a longer
name beside the file leads along the same directory.

* `follow_append` — following a path part by part;
* `Rooted` — all directories on the way are there, which following keeps;
* `resolve_file` — how a path leads to a file;
* `Path.eq_of_splitName`, `Path.splitName_append` — a file name and its ending;
* `resolve_suffix` — where the path with a longer name leads;
* `makeDirectories_parent` — the directory of a file need not be made.
-/

namespace CodeFence

namespace Path

variable {path : String}

theorem isAbsolute_append (hpath : path ≠ "") (more : String) :
    isAbsolute (path ++ more) = isAbsolute path := by
  obtain ⟨c, rest, hcs⟩ := List.exists_cons_of_ne_nil (mt String.toList_eq_nil_iff.mp hpath)
  simp [isAbsolute, hcs]

/-- What is added to a path is added wherever it is used. -/
theorem join_append (hpath : path ≠ "") (directory more : String) :
    join directory (path ++ more) = join directory path ++ more := by
  unfold join
  rw [isAbsolute_append hpath]
  split
  · rfl
  · split
    · exact (String.append_assoc ..).symm
    · exact (String.append_assoc ..).symm

theorem parts_ne_nil (path : String) : parts path ≠ [] :=
  mt List.map_eq_nil_iff.mp (Text.splitWhere_ne_nil _ _)

/-- The parts of a path on either side of a slash. -/
theorem parts_append_slash (path more : String) :
    parts (path ++ "/" ++ more) = parts path ++ parts more := by
  have hslash : "/".toList = ['/'] := rfl
  simp [parts, hslash, Text.splitAt_append_sep]

/-- Where a relative path is used, the same parts stand in front of it, whatever it is. -/
theorem parts_join_relative (directory : String) :
    ∃ lead, ∀ path, isAbsolute path = false →
      parts (join directory path) = lead ++ parts path := by
  by_cases hempty : directory.isEmpty = true
  · refine ⟨[], fun path _ => ?_⟩
    rw [join, hempty, Bool.or_true, if_pos rfl, List.nil_append]
  · rw [Bool.not_eq_true] at hempty
    by_cases hslash : directory.toList.getLast? = some '/'
    · obtain ⟨cs, hcs⟩ := List.getLast?_eq_some_iff.mp hslash
      have hdirectory : directory = String.ofList cs ++ "/" := by
        rw [← String.ofList_toList (s := directory), hcs, String.ofList_append]
      refine ⟨parts (String.ofList cs), fun path hpath => ?_⟩
      rw [join, hpath, hempty, Bool.or_false, if_neg Bool.false_ne_true, if_pos hslash, hdirectory,
        parts_append_slash]
    · refine ⟨parts directory, fun path hpath => ?_⟩
      rw [join, hpath, hempty, Bool.or_false, if_neg Bool.false_ne_true, if_neg hslash,
        parts_append_slash]

/-- The parts of a path are the last ones wherever it is used. -/
theorem parts_join (directory path : String) :
    ∃ lead, parts (join directory path) = lead ++ parts path := by
  cases habsolute : isAbsolute path with
  | true => exact ⟨[], by rw [join, habsolute, Bool.true_or, if_pos rfl, List.nil_append]⟩
  | false =>
      obtain ⟨lead, hlead⟩ := parts_join_relative directory
      exact ⟨lead, hlead path habsolute⟩

/-- A suffix without a slash makes the last name longer. -/
theorem parts_append {front : List String} {name suffix : String}
    (h : parts path = front ++ [name]) (hsuffix : '/' ∉ suffix.toList) :
    parts (path ++ suffix) = front ++ [name ++ suffix] := by
  obtain ⟨pieces, last, hpieces, rfl, hlast⟩ := List.map_eq_append_iff.mp h
  obtain ⟨piece, rfl, hname⟩ := List.map_eq_singleton_iff.mp hlast
  rw [parts, String.toList_append, Text.splitAt_append hpieces hsuffix, List.map_append,
    List.map_singleton, String.ofList_append, hname, String.ofList_toList]

/-- A path whose last part is a name ends in it, behind a slash or alone. -/
theorem name_cases {front : List String} {name : String} (h : parts path = front ++ [name])
    (hname : name ≠ "") :
    ∃ before last, path.toList = before ++ last ∧ last ≠ [] ∧ '/' ∉ last ∧
      (before = [] ∨ ∃ above, before = above ++ ['/']) := by
  have hlast : ∀ (pieces : List (List Char)) {last : List Char},
      Text.splitAt '/' path.toList = pieces ++ [last] → last ≠ [] := by
    rintro pieces last hpieces rfl
    rw [parts, hpieces, List.map_append] at h
    have hempty : [""] = [name] := (List.append_inj' h rfl).2
    exact hname (by simpa using hempty.symm)
  rcases Text.splitAt_cases '/' path.toList with
    ⟨hmem, hpieces⟩ | ⟨above, last, hmem, hpath, hpieces⟩
  · exact ⟨[], path.toList, rfl, hlast [] hpieces, hmem, Or.inl rfl⟩
  · exact ⟨above ++ ['/'], last, by simp [hpath], hlast _ hpieces, hmem, Or.inr ⟨above, rfl⟩⟩

/-- What `parent?` makes of the text in front of a name. -/
theorem parent?_eq {before last : List Char} (hpath : path.toList = before ++ last)
    (hlast : last ≠ []) (hmem : '/' ∉ last)
    (hbefore : before = [] ∨ ∃ above, before = above ++ ['/']) :
    parent? path =
      let rest := before.reverse.dropWhile (· = '/')
      some (if rest.isEmpty && isAbsolute path then "/" else String.ofList rest.reverse) := by
  have hreverse : path.toList.reverse = last.reverse ++ before.reverse := by
    rw [hpath, List.reverse_append]
  have hall : ∀ c ∈ last.reverse, c ≠ '/' := by
    intro c hc heq
    exact hmem (List.mem_reverse.mp (heq ▸ hc))
  have hstop : ∀ c ∈ before.reverse.head?, decide (c ≠ '/') = false := by
    rcases hbefore with rfl | ⟨above, rfl⟩ <;> simp
  have hname : (last.reverse ++ before.reverse).dropWhile (· ≠ '/') = before.reverse :=
    (span_append (by simpa using hall) hstop).2
  obtain ⟨c, cs, hcs⟩ := List.exists_cons_of_ne_nil (mt List.reverse_eq_nil_iff.mp hlast)
  have hc : c ≠ '/' := hall c (by simp [hcs])
  have hdrop : path.toList.reverse.dropWhile (· = '/') = last.reverse ++ before.reverse := by
    simp [hreverse, hcs, hc]
  unfold parent?
  dsimp only
  rw [hdrop]
  split
  · rename_i hnone
    exact absurd hnone (by simp [hlast])
  · rw [hname]

/-- A text that ends in slashes, without these. -/
theorem eq_append_slashes {above : List Char} {c : Char} {rest : List Char}
    (h : above.reverse.dropWhile (· = '/') = c :: rest) :
    ∃ n, above = (c :: rest).reverse ++ List.replicate n '/' := by
  obtain ⟨n, hn⟩ : ∃ n, above.reverse.takeWhile (· = '/') = List.replicate n '/' :=
    ⟨_, List.eq_replicate_of_mem fun c hc => by
      simpa using List.all_eq_true.mp List.all_takeWhile c hc⟩
  have hparts := List.takeWhile_append_dropWhile (p := (· = '/')) (l := above.reverse)
  rw [h, hn] at hparts
  exact ⟨n, by simpa using congrArg List.reverse hparts.symm⟩

/-- **The directory of a file.**  A path whose last part is a name lies where
relative paths start, in the root directory, or in the directory `parent?`
names, from which it goes on behind a slash. -/
theorem parent?_cases {front : List String} {name : String} (h : parts path = front ++ [name])
    (hname : name ≠ "") :
    parent? path = some "" ∨ parent? path = some "/" ∨
      ∃ parent more, parent ≠ "" ∧ parent? path = some parent ∧
        path = parent ++ "/" ++ more := by
  obtain ⟨before, last, hpath, hlast, hmem, hbefore⟩ := name_cases h hname
  have hparent := parent?_eq hpath hlast hmem hbefore
  dsimp only at hparent
  cases hrest : before.reverse.dropWhile (· = '/') with
  | nil =>
      rw [hrest] at hparent
      cases habsolute : isAbsolute path with
      | true =>
          rw [habsolute] at hparent
          exact Or.inr (Or.inl hparent)
      | false =>
          rw [habsolute] at hparent
          exact Or.inl hparent
  | cons c rest =>
      rw [hrest] at hparent
      rcases hbefore with rfl | ⟨above, rfl⟩
      · cases hrest
      · obtain ⟨n, rfl⟩ := eq_append_slashes (by simpa using hrest)
        have hslash : "/" = String.ofList ['/'] := rfl
        have hslashes : List.replicate n '/' ++ ['/'] = ['/'] ++ List.replicate n '/' := by
          rw [← List.replicate_succ', List.replicate_succ, List.singleton_append]
        refine Or.inr (Or.inr ⟨String.ofList (c :: rest).reverse,
          String.ofList (List.replicate n '/' ++ last), by simp, hparent, ?_⟩)
        rw [← String.ofList_toList (s := path), hpath, hslash, ← String.ofList_append,
          ← String.ofList_append, List.append_assoc _ _ ['/'], hslashes]
        simp only [List.append_assoc]

/-! ## File names -/

/-- A name is put together again from what is in front of its last dot and what
is behind it. -/
theorem eq_of_splitName {name stem ending : String} (h : splitName name = (stem, some ending)) :
    name = stem ++ "." ++ ending ∧ stem ≠ "" := by
  unfold splitName at h
  split at h
  · cases h
  · cases h
  · rename_i back front hfront hcut
    obtain ⟨rfl, hending⟩ := Prod.mk.inj h
    obtain rfl := Option.some.inj hending
    have hname : name.toList = front.reverse ++ ['.'] ++ back.reverse := by
      simpa using congrArg List.reverse (Text.cutAround?_eq hcut)
    refine ⟨?_, fun hempty => hfront ?_⟩
    · rw [← String.ofList_toList (s := name), hname, String.ofList_append, String.ofList_append]
    · simpa using congrArg String.toList hempty

/-- An ending without a dot is split off again. -/
theorem splitName_append {stem ending : String} (hstem : stem ≠ "")
    (hending : '.' ∉ ending.toList) :
    splitName (stem ++ "." ++ ending) = (stem, some ending) := by
  have hdot : ".".toList = ['.'] := rfl
  have hback : '.' ∉ ending.toList.reverse := mt List.mem_reverse.mp hending
  have hcut : Text.cutAround? ['.'] (stem ++ "." ++ ending).toList.reverse =
      some (ending.toList.reverse, stem.toList.reverse) := by
    rw [← Text.cutAround?_of_avoids (Text.avoids_of_not_mem hback) (List.cons_ne_nil '.' [])]
    simp [hdot]
  have hfront : stem.toList.reverse ≠ [] := by
    rw [ne_eq, List.reverse_eq_nil_iff, String.toList_eq_nil_iff]
    exact hstem
  unfold splitName
  rw [hcut]
  cases hchars : stem.toList.reverse with
  | nil => exact absurd hchars hfront
  | cons c rest =>
      dsimp only
      rw [← hchars]
      simp

end Path

namespace FileStore

variable {s : FileStore} {names here there : List String} {path : String}

/-! ## Following a path -/

/-- To resolve a path is to follow it from the root directory. -/
theorem resolve_eq_ok_iff : s.resolve path = .ok names ↔
    path ≠ "" ∧ s.follow [] (Path.parts (Path.join s.workingDirectory path)) = .ok names := by
  unfold resolve
  by_cases hpath : path = "" <;> simp [hpath]

/-- Following a path goes through what its first parts lead to. -/
theorem follow_append (s : FileStore) (here : List String) (front back : List String) :
    s.follow here (front ++ back) = (s.follow here front).bind (s.follow · back) := by
  induction front generalizing here with
  | nil => rfl
  | cons part rest ih =>
      rw [List.cons_append, follow, follow]
      cases s.find? here with
      | none => rfl
      | some entry =>
          cases entry with
          | file content => rfl
          | directory =>
              dsimp only
              split
              · exact ih here
              · split
                · exact ih here.dropLast
                · exact ih (here ++ [part])

/-- A directory can be left only if it is there. -/
theorem isDirectory_of_follow {part : String} {rest : List String}
    (h : s.follow here (part :: rest) = .ok names) : s.find? here = some .directory := by
  rw [follow] at h
  split at h
  · cases h
  · cases h
  · assumption

/-- All directories on the way to some names are there. -/
def Rooted (s : FileStore) (names : List String) : Prop :=
  ∀ n < names.length, s.find? (names.take n) = some .directory

theorem rooted_nil (s : FileStore) : Rooted s [] := fun n hn => absurd hn (Nat.not_lt_zero n)

theorem Rooted.append (h : Rooted s here) (hhere : s.find? here = some .directory)
    (part : String) : Rooted s (here ++ [part]) := by
  intro n hn
  rw [List.length_append, List.length_singleton] at hn
  rw [List.take_append_of_le_length (by omega)]
  by_cases hlast : n < here.length
  · exact h n hlast
  · rw [List.take_of_length_le (by omega)]
    exact hhere

theorem Rooted.dropLast (h : Rooted s here) : Rooted s here.dropLast := by
  intro n hn
  rw [List.length_dropLast] at hn
  rw [List.dropLast_eq_take, List.take_take, Nat.min_eq_left (by omega)]
  exact h n (by omega)

/-- Above what is rooted there is a directory. -/
theorem Rooted.find?_dropLast (h : Rooted s here) :
    s.find? here.dropLast = some .directory := by
  by_cases hempty : here = []
  · rw [hempty]
    rfl
  · rw [List.dropLast_eq_take]
    exact h _ (Nat.sub_one_lt (mt List.length_eq_zero_iff.mp hempty))

/-- **Following a path** goes through directories only. -/
theorem Rooted.follow (h : Rooted s here) {parts : List String}
    (hfollow : s.follow here parts = .ok names) : Rooted s names := by
  induction parts generalizing here with
  | nil => exact Except.ok.inj hfollow ▸ h
  | cons part rest ih =>
      have hhere := isDirectory_of_follow hfollow
      rw [FileStore.follow, hhere] at hfollow
      dsimp only at hfollow
      split at hfollow
      · exact ih h hfollow
      · split at hfollow
        · exact ih h.dropLast hfollow
        · exact ih (h.append hhere part) hfollow

/-- **How a path leads to a file**: through the directory of the file, and then
by its name. -/
theorem resolve_file {content : ByteArray} (hresolve : s.resolve path = .ok names)
    (hfile : s.find? names = some (.file content)) :
    ∃ front name there, Path.parts (Path.join s.workingDirectory path) = front ++ [name] ∧
      s.follow [] front = .ok there ∧ s.find? there = some .directory ∧
      names = there ++ [name] ∧ name ≠ "" ∧ name ≠ "." ∧ name ≠ ".." := by
  obtain ⟨-, hfollow⟩ := resolve_eq_ok_iff.mp hresolve
  obtain ⟨front, name, hparts⟩ :=
    (List.eq_nil_or_concat _).resolve_left
      (Path.parts_ne_nil (Path.join s.workingDirectory path))
  rw [List.concat_eq_append] at hparts
  rw [hparts, follow_append] at hfollow
  obtain ⟨there, hthere, hlast⟩ := bind_eq_ok_iff.mp hfollow
  have hdirectory := isDirectory_of_follow hlast
  have hrooted : Rooted s there := (rooted_nil s).follow hthere
  -- A last part that is no name would lead to a directory.
  have hnot : s.find? names ≠ some .directory := by simp [hfile]
  rw [follow, hdirectory] at hlast
  dsimp only at hlast
  split at hlast
  · exact absurd (Except.ok.inj hlast ▸ hdirectory) hnot
  · rename_i hstay
    split at hlast
    · exact absurd (Except.ok.inj hlast ▸ hrooted.find?_dropLast) hnot
    · rename_i hup
      rw [not_or] at hstay
      exact ⟨front, name, there, hparts, hthere, hdirectory, (Except.ok.inj hlast).symm,
        hstay.1, hstay.2, hup⟩

/-- **A longer name.**  Beside a file, a path with a suffix leads to the name of
the file with this suffix. -/
theorem resolve_suffix {content : ByteArray} (hresolve : s.resolve path = .ok names)
    (hfile : s.find? names = some (.file content)) {suffix : String}
    (hsuffix : '/' ∉ suffix.toList) (hlength : 2 < suffix.length) :
    ∃ name there, names = there ++ [name] ∧
      s.resolve (path ++ suffix) = .ok (there ++ [name ++ suffix]) := by
  obtain ⟨front, name, there, hparts, hthere, hdirectory, hnames, -⟩ :=
    resolve_file hresolve hfile
  obtain ⟨hpath, -⟩ := resolve_eq_ok_iff.mp hresolve
  have hlonger : ∀ short : String, short.length ≤ 2 → name ++ suffix ≠ short := by
    rintro _ hshort rfl
    rw [String.length_append] at hshort
    omega
  have hstep : s.follow there [name ++ suffix] = .ok (there ++ [name ++ suffix]) := by
    rw [follow, hdirectory]
    dsimp only
    rw [if_neg (not_or.mpr ⟨hlonger "" (by decide), hlonger "." (by decide)⟩),
      if_neg (hlonger ".." (by decide))]
    rfl
  refine ⟨name, there, hnames, resolve_eq_ok_iff.mpr ⟨?_, ?_⟩⟩
  · exact fun hempty => hpath (String.append_eq_empty_iff.mp hempty).1
  · rw [Path.join_append hpath, Path.parts_append hparts hsuffix, follow_append, hthere]
    exact hstep

/-- Nothing is made along a path whose directories are there. -/
theorem makeAlong_of_follow {parts : List String} (h : s.follow here parts = .ok there)
    (hthere : s.find? there = some .directory) : s.makeAlong here parts = .ok s := by
  induction parts generalizing here with
  | nil => rfl
  | cons part rest ih =>
      have hhere := isDirectory_of_follow h
      rw [follow, hhere] at h
      rw [makeAlong]
      dsimp only at h ⊢
      split at h
      · rename_i hstay
        rw [if_pos hstay]
        exact ih h
      · rename_i hstay
        rw [if_neg hstay]
        split at h
        · rename_i hup
          rw [if_pos hup]
          exact ih h
        · rename_i hup
          have hnext : s.find? (here ++ [part]) = some .directory := by
            cases rest with
            | nil => exact Except.ok.inj h ▸ hthere
            | cons next rest => exact isDirectory_of_follow h
          rw [if_neg hup, hnext]
          exact ih h

/-- **The directory of a file** is there, so that it need not be made. -/
theorem makeDirectories_parent {content : ByteArray} (hresolve : s.resolve path = .ok names)
    (hfile : s.find? names = some (.file content)) :
    s.makeDirectories ((Path.parent? path).getD "") = .ok s := by
  obtain ⟨front, name, there, hparts, hthere, hdirectory, hnames, hname, -⟩ :=
    resolve_file hresolve hfile
  obtain ⟨lead, hlead⟩ := Path.parts_join s.workingDirectory path
  obtain ⟨before, last, hpath⟩ := (List.eq_nil_or_concat _).resolve_left (Path.parts_ne_nil path)
  rw [List.concat_eq_append] at hpath
  obtain rfl : last = name := by
    rw [hlead, hpath, ← List.append_assoc] at hparts
    simpa using (List.append_inj' hparts rfl).2
  rcases Path.parent?_cases hpath hname with
      hparent | hparent | ⟨parent, more, hfull, hparent, heq⟩ <;>
    rw [hparent, Option.getD_some]
  · rfl
  · have hjoin : Path.join s.workingDirectory "/" = "/" := if_pos rfl
    rw [makeDirectories, if_neg (by decide), hjoin]
    rfl
  · obtain ⟨-, hfollow⟩ := resolve_eq_ok_iff.mp hresolve
    rw [heq, String.append_assoc, Path.join_append hfull, ← String.append_assoc,
      Path.parts_append_slash, follow_append] at hfollow
    obtain ⟨above, habove, hbelow⟩ := bind_eq_ok_iff.mp hfollow
    obtain ⟨part, rest, hmore⟩ := List.exists_cons_of_ne_nil (Path.parts_ne_nil more)
    rw [hmore] at hbelow
    rw [makeDirectories, if_neg hfull]
    exact makeAlong_of_follow habove (isDirectory_of_follow hbelow)

end FileStore

end CodeFence
