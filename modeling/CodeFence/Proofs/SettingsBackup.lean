import CodeFence.Proofs.PathNames
import CodeFence.Proofs.SettingsFile

/-!
# The copy of a file that is replaced

A file of settings that is not JSON is copied beside itself, and then it is
replaced by the standard settings.  Nothing asks whether the copy was made, so
the file is replaced in either case.  The copy fails where a directory has its
name, and only there.

* `writeText_eq`, `readText_of_find?` — a file is written unless a directory is
  in its place, and then it is read;
* `save_of_file` — a file that can be read can be replaced;
* `backUp_cases`, `load_notJson_cases` — what is found after the copy, and what
  after the load;
* `load_notJson_iff` — the file is replaced, and its old text is kept exactly if
  no directory has the name of the copy;
* `not_backedUp_of_directory` — a text that is lost.
-/

namespace CodeFence.Settings

open FileStore (Keeps)

variable {env : Environment} {files : FileStore} {path text : String} {names : List String}

/-! ## One file -/

/-- A file is written unless a directory is in its place. -/
theorem writeText_eq (hresolve : files.resolve path = .ok names) (text : String) :
    files.writeText path text =
      if files.find? names = some .directory then .error .isDirectory
      else .ok (files.put names (.file text.toUTF8)) := by
  rw [FileStore.writeText, FileStore.write, hresolve]
  dsimp only [bind, Except.bind]
  split
  · rename_i hdirectory
    rw [if_pos hdirectory]
    rfl
  · rename_i hfound
    rw [if_neg hfound]
    rfl

/-- What is at a path is what the names have that it leads to. -/
theorem get_eq_ok_iff_find? (hresolve : files.resolve path = .ok names) {e : FileEntry} :
    files.get path = .ok e ↔ files.find? names = some e := by
  rw [FileStore.get_eq_ok_iff]
  constructor
  · rintro ⟨names', hresolve', hfound⟩
    rw [hresolve] at hresolve'
    cases hresolve'
    exact hfound
  · exact fun hfound => ⟨names, hresolve, hfound⟩

/-- A text is read where it is found. -/
theorem readText_of_find? (hresolve : files.resolve path = .ok names)
    (hfound : files.find? names = some (.file text.toUTF8)) : files.readText path = .ok text :=
  FileStore.readText_eq_ok_iff.mpr
    ⟨text.toUTF8, (get_eq_ok_iff_find? hresolve).mpr hfound, FileStore.decode_encode text⟩

/-- No text is read from a directory. -/
theorem readText_ne_of_directory (hget : files.get path = .ok .directory) :
    files.readText path ≠ .ok text := by
  intro hread
  obtain ⟨content, hfile, -⟩ := FileStore.readText_eq_ok_iff.mp hread
  rw [hget] at hfile
  cases hfile

/-- **A file can be replaced**: its directory need not be made, and no directory
is in its place. -/
theorem save_of_file {content : ByteArray} (hresolve : files.resolve path = .ok names)
    (hfile : files.find? names = some (.file content)) (s : Settings) :
    save files path s = (files.put names (.file s.render.toUTF8), .ok ()) := by
  have hfound : files.find? names ≠ some .directory := by simp [hfile]
  unfold save
  dsimp only
  rw [FileStore.makeDirectories_parent hresolve hfile]
  dsimp only
  rw [writeText_eq hresolve, if_neg hfound]

/-- **The copy of a file** goes beside it, and the file itself stays as it is.
The copy is made unless a directory has its name. -/
theorem backUp_cases {content : ByteArray} (hresolve : files.resolve path = .ok names)
    (hfile : files.find? names = some (.file content)) (text : String) :
    ∃ copy, copy ≠ names ∧ files.resolve (backupPath path) = .ok copy ∧
      Keeps files (backUp files path text) ∧
      (backUp files path text).find? names = some (.file content) ∧
      (backUp files path text).find? copy =
        if files.find? copy = some .directory then some .directory
        else some (.file text.toUTF8) := by
  have hslash : '/' ∉ ".bak".toList := by decide
  obtain ⟨name, there, rfl, hcopy⟩ :=
    FileStore.resolve_suffix hresolve hfile hslash (by decide)
  have hne : there ++ [name ++ ".bak"] ≠ there ++ [name] := by simp
  refine ⟨there ++ [name ++ ".bak"], hne, hcopy, ?_⟩
  unfold backUp
  rw [backupPath, writeText_eq hcopy]
  by_cases hdirectory : files.find? (there ++ [name ++ ".bak"]) = some .directory
  · rw [if_pos hdirectory, if_pos hdirectory]
    exact ⟨Keeps.refl files, hfile, hdirectory⟩
  · rw [if_neg hdirectory, if_neg hdirectory]
    refine ⟨FileStore.keeps_put hdirectory _, ?_, ?_⟩
    · rw [FileStore.find?_put (by simp), if_neg hne.symm, hfile]
    · rw [FileStore.find?_put (by simp), if_pos rfl]

/-! ## The load of a text that is not JSON -/

section NotJson

variable (env : Environment) (hread : files.readText path = .ok text)
  (hjson : Json.parse? text = none)

include hread hjson

/-- **What a load does with a text that is not JSON**: it copies the text if that
can be done, and saves the standard settings in its place.  Nothing else is found
to have changed. -/
theorem load_notJson_cases :
    ∃ names copy, copy ≠ names ∧ Keeps files (load env files path).2 ∧
      (load env files path).1 = { settings := standard, repaired := ["*"], saved := true } ∧
      files.resolve path = .ok names ∧
      (load env files path).2.find? names = some (.file standard.render.toUTF8) ∧
      files.resolve (backupPath path) = .ok copy ∧
      (load env files path).2.find? copy =
        if files.find? copy = some .directory then some .directory
        else some (.file text.toUTF8) := by
  obtain ⟨content, hget, -⟩ := FileStore.readText_eq_ok_iff.mp hread
  obtain ⟨names, hresolve, hfile⟩ := FileStore.get_eq_ok_iff.mp hget
  obtain ⟨copy, hne, hcopy, hkeeps, hstill, hfound⟩ := backUp_cases hresolve hfile text
  have hload : load env files path =
      ({ settings := standard, repaired := ["*"], saved := true },
        (backUp files path text).put names (.file standard.render.toUTF8)) := by
    unfold load
    rw [hread]
    dsimp only
    rw [hjson]
    dsimp only
    rw [finish, if_neg (by decide), save_of_file (hkeeps.resolve hresolve) hstill]
    rfl
  have hdirectory : (backUp files path text).find? names ≠ some .directory := by simp [hstill]
  have hnames := FileStore.ne_nil_of_find? hdirectory
  rw [hload]
  refine ⟨names, copy, hne, hkeeps.trans (FileStore.keeps_put hdirectory _), rfl, hresolve, ?_,
    hcopy, ?_⟩
  · rw [FileStore.find?_put hnames, if_pos rfl]
  · rw [FileStore.find?_put hnames, if_neg hne, hfound]

/-- The standard settings take the place of the text. -/
theorem readText_load_notJson :
    (load env files path).2.readText path = .ok standard.render ∧ standard.render ≠ text := by
  obtain ⟨names, -, -, hkeeps, -, hresolve, hfound, -⟩ := load_notJson_cases env hread hjson
  refine ⟨readText_of_find? (hkeeps.resolve hresolve) hfound, ?_⟩
  intro hsame
  rw [← hsame, wellShaped_standard.parse?_render] at hjson
  cases hjson

/-- The text is lost where a directory has the name of the copy. -/
theorem readText_backupPath_ne (hblocked : files.get (backupPath path) = .ok .directory) :
    (load env files path).2.readText (backupPath path) ≠ .ok text := by
  obtain ⟨-, copy, -, hkeeps, -, -, -, hcopy, hfound⟩ := load_notJson_cases env hread hjson
  rw [if_pos ((get_eq_ok_iff_find? hcopy).mp hblocked)] at hfound
  exact readText_ne_of_directory ((get_eq_ok_iff_find? (hkeeps.resolve hcopy)).mpr hfound)

/-- Everywhere else it is found in the copy. -/
theorem readText_backupPath (hfree : files.get (backupPath path) ≠ .ok .directory) :
    (load env files path).2.readText (backupPath path) = .ok text := by
  obtain ⟨-, copy, -, hkeeps, -, -, -, hcopy, hfound⟩ := load_notJson_cases env hread hjson
  rw [if_neg (mt (get_eq_ok_iff_find? hcopy).mpr hfree)] at hfound
  exact readText_of_find? (hkeeps.resolve hcopy) hfound

/-- **What becomes of a text that is not JSON.**  The standard settings are saved
in its place.  The copy holds it afterwards exactly if no directory has the name
of the copy. -/
theorem load_notJson_iff :
    (load env files path).1 = { settings := standard, repaired := ["*"], saved := true } ∧
      (load env files path).2.readText path = .ok standard.render ∧ standard.render ≠ text ∧
      ((load env files path).2.readText (backupPath path) = .ok text ↔
        files.get (backupPath path) ≠ .ok .directory) := by
  obtain ⟨-, -, -, -, hloaded, -⟩ := load_notJson_cases env hread hjson
  obtain ⟨hreplaced, hne⟩ := readText_load_notJson env hread hjson
  refine ⟨hloaded, hreplaced, hne, ?_, readText_backupPath env hread hjson⟩
  intro hkept hblocked
  exact readText_backupPath_ne env hread hjson hblocked hkept

end NotJson

/-- Outcomes of file operations can be compared. -/
instance {ε α : Type} [DecidableEq ε] [DecidableEq α] : DecidableEq (Except ε α)
  | .ok a, .ok b => decidable_of_iff (a = b) ⟨congrArg Except.ok, Except.ok.inj⟩
  | .error a, .error b => decidable_of_iff (a = b) ⟨congrArg Except.error, Except.error.inj⟩
  | .ok _, .error _ => isFalse nofun
  | .error _, .ok _ => isFalse nofun

/-- The text of settings that were cut off. -/
def cutOffText : String := "\x7b\"fontSize\":"

/-- The file of these settings, and a directory that may stand where its copy
goes. -/
def cutOffFile (blocked : Bool) : FileStore where
  entries := (["settings.json"], .file cutOffText.toUTF8) ::
    if blocked then [(["settings.json.bak"], .directory)] else []

/-- It is replaced, and its copy holds what it was. -/
theorem load_cutOffFile :
    (cutOffFile false).readText "/settings.json" = .ok cutOffText ∧
      Json.parse? cutOffText = none ∧
      (load {} (cutOffFile false) "/settings.json").1.saved = true ∧
      (load {} (cutOffFile false) "/settings.json").2.readText "/settings.json" =
        .ok standard.render ∧
      (load {} (cutOffFile false) "/settings.json").2.readText
        (backupPath "/settings.json") = .ok cutOffText := by
  have hread : (cutOffFile false).readText "/settings.json" = .ok cutOffText := by
    decide +kernel
  have hjson : Json.parse? cutOffText = none := by decide +kernel
  have hfree : (cutOffFile false).get (backupPath "/settings.json") ≠ .ok .directory := by
    decide +kernel
  obtain ⟨hloaded, hreplaced, -, hkept⟩ := load_notJson_iff {} hread hjson
  exact ⟨hread, hjson, by rw [hloaded], hreplaced, hkept.mpr hfree⟩

/-- **The text is lost** where a directory has the name of the copy. -/
theorem not_backedUp_of_directory :
    (cutOffFile true).readText "/settings.json" = .ok cutOffText ∧
      Json.parse? cutOffText = none ∧
      (load {} (cutOffFile true) "/settings.json").2.readText "/settings.json" ≠
        .ok cutOffText ∧
      (load {} (cutOffFile true) "/settings.json").2.readText (backupPath "/settings.json") ≠
        .ok cutOffText := by
  have hread : (cutOffFile true).readText "/settings.json" = .ok cutOffText := by
    decide +kernel
  have hjson : Json.parse? cutOffText = none := by decide +kernel
  have hblocked : (cutOffFile true).get (backupPath "/settings.json") = .ok .directory := by
    decide +kernel
  obtain ⟨hreplaced, hne⟩ := readText_load_notJson {} hread hjson
  refine ⟨hread, hjson, ?_, readText_backupPath_ne {} hread hjson hblocked⟩
  intro hstill
  rw [hreplaced] at hstill
  exact hne (Except.ok.inj hstill)

end CodeFence.Settings
