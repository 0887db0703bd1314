import CodeFence.Proofs.PathNames

/-!
# Files by their names in a directory

A name that is joined to a directory leads to what has this name directly in the
directory, wherever the directory is and however it is written.  The empty path
stands for the directory where relative paths start, although as a path of its own
it leads nowhere.

* `directoryPath` — the path of a directory, also of the empty one;
* `exists_lead` — the way to a name goes through the directory;
* `resolve_join`, `exists_directory_of_file` — where a name in a directory leads;
* `mem_list?_of_isFile` — a file in a directory is listed by it.
-/

namespace CodeFence

namespace Path

theorem isAbsolute_of_no_slash {name : String} (hname : '/' ∉ name.toList) :
    isAbsolute name = false :=
  decide_eq_false fun habsolute => hname (List.mem_of_head? habsolute)

theorem parts_of_no_slash {name : String} (hname : '/' ∉ name.toList) : parts name = [name] := by
  rw [parts, Text.splitAt_of_not_mem hname, List.map_singleton, String.ofList_toList]

/-- **A name in a directory** is the last part of the path.  In front of it stand
the parts of the directory, but for an empty one behind a slash at its end. -/
theorem parts_join_name (start : String) {directory name : String} (hdirectory : directory ≠ "")
    (hname : '/' ∉ name.toList) :
    (∃ lead, parts (join start directory) = lead ++ [""] ∧
      parts (join start (join directory name)) = lead ++ [name]) ∨
    parts (join start (join directory name)) = parts (join start directory) ++ [name] := by
  have hjoin : join directory name =
      if directory.toList.getLast? = some '/' then directory ++ name
      else directory ++ "/" ++ name := by
    rw [join, isAbsolute_of_no_slash hname, Bool.false_or, if_neg (by simpa using hdirectory)]
  rw [hjoin]
  split
  · rename_i hslash
    obtain ⟨cs, hcs⟩ := List.getLast?_eq_some_iff.mp hslash
    have heq : directory = String.ofList cs ++ "/" ++ "" := by
      rw [← String.ofList_toList (s := directory), hcs, String.ofList_append]
      simp
    obtain ⟨lead, hlead⟩ := parts_join start directory
    have hfront : parts (join start directory) = lead ++ parts (String.ofList cs) ++ [""] := by
      rw [hlead, heq, parts_append_slash, List.append_assoc]
      rfl
    refine Or.inl ⟨_, hfront, ?_⟩
    rw [join_append hdirectory, parts_append hfront hname, String.empty_append]
  · refine Or.inr ?_
    rw [String.append_assoc, join_append hdirectory, ← String.append_assoc, parts_append_slash,
      parts_of_no_slash hname]

end Path

namespace FileStore

variable {s : FileStore} {here names : List String} {directory name : String}

/-- The path of a directory; the empty one stands for where relative paths start. -/
def directoryPath (directory : String) : String :=
  if directory = "" then "." else directory

/-- An empty part and a single dot lead nowhere else. -/
theorem follow_stay_iff {stay : String} (hstay : stay = "" ∨ stay = ".") {lead : List String}
    (hhere : s.find? here = some .directory) :
    s.follow [] (lead ++ [stay]) = .ok here ↔ s.follow [] lead = .ok here := by
  have hlast : ∀ there names, s.follow there [stay] = .ok names →
      there = names := by
    intro there names h
    rw [follow, isDirectory_of_follow h] at h
    dsimp only at h
    rw [if_pos hstay] at h
    exact Except.ok.inj h
  rw [follow_append]
  constructor
  · intro h
    obtain ⟨there, hthere, hstep⟩ := bind_eq_ok_iff.mp h
    rw [hthere, hlast there here hstep]
  · intro h
    rw [h]
    change s.follow here [stay] = .ok here
    rw [follow, hhere]
    dsimp only
    rw [if_pos hstay]
    rfl

/-- **The way to a name in a directory** is the way to the directory, and the name
behind it. -/
theorem exists_lead (s : FileStore) (directory : String) (hname : '/' ∉ name.toList) :
    ∃ lead, Path.parts (Path.join s.workingDirectory (Path.join directory name)) =
        lead ++ [name] ∧
      ∀ here, s.find? here = some .directory →
        (s.resolve (directoryPath directory) = .ok here ↔ s.follow [] lead = .ok here) := by
  by_cases hdirectory : directory = ""
  · obtain ⟨lead, hlead⟩ := Path.parts_join_relative s.workingDirectory
    have hjoin : Path.join directory name = name := by
      rw [hdirectory, Path.join]
      simp
    refine ⟨lead, ?_, fun here hhere => ?_⟩
    · rw [hjoin, hlead name (Path.isAbsolute_of_no_slash hname), Path.parts_of_no_slash hname]
    · have hdot : Path.parts (Path.join s.workingDirectory ".") = lead ++ ["."] :=
        hlead "." (by decide)
      rw [directoryPath, if_pos hdirectory, resolve_eq_ok_iff, hdot,
        follow_stay_iff (Or.inr rfl) hhere]
      exact and_iff_right (by decide)
  · have hresolve : ∀ here, s.resolve (directoryPath directory) = .ok here ↔
        s.follow [] (Path.parts (Path.join s.workingDirectory directory)) = .ok here := by
      intro here
      rw [directoryPath, if_neg hdirectory, resolve_eq_ok_iff]
      exact and_iff_right hdirectory
    rcases Path.parts_join_name s.workingDirectory hdirectory hname with
      ⟨lead, hlead, hjoined⟩ | hjoined
    · refine ⟨lead, hjoined, fun here hhere => ?_⟩
      rw [hresolve, hlead, follow_stay_iff (Or.inl rfl) hhere]
    · exact ⟨_, hjoined, fun here _ => hresolve here⟩

/-- **A name in a directory** leads to what has this name directly in the directory. -/
theorem resolve_join (hname : '/' ∉ name.toList)
    (hplain : name ≠ "" ∧ name ≠ "." ∧ name ≠ "..")
    (hresolve : s.resolve (directoryPath directory) = .ok here)
    (hhere : s.find? here = some .directory) :
    s.resolve (Path.join directory name) = .ok (here ++ [name]) := by
  obtain ⟨hempty, hdot, hup⟩ := hplain
  obtain ⟨lead, hparts, hlead⟩ := exists_lead s directory hname
  have hstep : s.follow here [name] = .ok (here ++ [name]) := by
    rw [follow, hhere]
    dsimp only
    rw [if_neg (not_or.mpr ⟨hempty, hdot⟩), if_neg hup]
    rfl
  have hjoin : Path.join directory name ≠ "" := by
    unfold Path.join
    split
    · exact hempty
    · split <;> exact fun h => hempty (String.append_eq_empty_iff.mp h).2
  refine resolve_eq_ok_iff.mpr ⟨hjoin, ?_⟩
  rw [hparts, follow_append, (hlead here hhere).mp hresolve]
  exact hstep

/-- If such a path leads to a file, the file is in the directory and has the name. -/
theorem exists_directory_of_file (hname : '/' ∉ name.toList) {content : ByteArray}
    (hresolve : s.resolve (Path.join directory name) = .ok names)
    (hfile : s.find? names = some (.file content)) :
    ∃ here, s.resolve (directoryPath directory) = .ok here ∧ s.find? here = some .directory ∧
      names = here ++ [name] := by
  obtain ⟨front, last, here, hparts, hfront, hhere, hnames, -⟩ := resolve_file hresolve hfile
  obtain ⟨lead, hjoined, hlead⟩ := exists_lead s directory hname
  obtain ⟨rfl, hlast⟩ := List.append_inj' (hparts.symm.trans hjoined) rfl
  refine ⟨here, (hlead here hhere).mpr hfront, hhere, ?_⟩
  rw [hnames, hlast]

/-- **A file in a directory** is among what the directory lists. -/
theorem mem_list?_of_isFile (hdirectory : directory ≠ "") (hname : '/' ∉ name.toList)
    (h : s.isFile (Path.join directory name) = true) : name ∈ (s.list? directory).getD [] := by
  obtain ⟨content, hget⟩ := isFile_iff.mp h
  obtain ⟨names, hresolve, hfile⟩ := get_eq_ok_iff.mp hget
  obtain ⟨here, hthere, hhere, rfl⟩ := exists_directory_of_file hname hresolve hfile
  rw [directoryPath, if_neg hdirectory] at hthere
  refine mem_list?_iff.mpr ⟨here, hthere, hhere, ?_⟩
  rw [find?, if_neg (by simp)] at hfile
  exact isSome_lookup_iff.mp (Option.isSome_of_mem hfile)

end FileStore

end CodeFence
