import CodeFence.Files.Store
import CodeFence.Proofs.EntryLists

/-!
# What writing does to a store of files

Writing a file and making directories only add to what is there: every
directory stays, every file stays a file, and so every path leads where it led
before.  In particular the path along which a file was written leads to that
file afterwards.

* `find?_put` — what is found after an entry was put in place;
* `Keeps` — directories stay, and files stay files;
* `Keeps.follow`, `Keeps.isFile` — paths lead where they led before;
* `get_eq_ok_iff`, `readText_eq_ok_iff` — when a path can be read;
* `mem_list?_iff` — what a directory lists;
* `keeps_write`, `keeps_makeDirectories` — what keeps a store;
* `readText_writeText` — a text that was written is read.
-/

namespace CodeFence

/-- Two steps in a row succeed if the first one does, and the second one with
what the first one gave. -/
theorem bind_eq_ok_iff {ε α β : Type} {x : Except ε α} {f : α → Except ε β} {b : β} :
    (x >>= f) = .ok b ↔ ∃ a, x = .ok a ∧ f a = .ok b := by
  cases x with
  | error e => simp [bind, Except.bind]
  | ok a => simp [bind, Except.bind]

/-- They fail if the first one does, or the second one with what the first one gave. -/
theorem bind_eq_error_iff {ε α β : Type} {x : Except ε α} {f : α → Except ε β} {e : ε} :
    (x >>= f) = .error e ↔ x = .error e ∨ ∃ a, x = .ok a ∧ f a = .error e := by
  cases x with
  | error e' => simp [bind, Except.bind]
  | ok a => simp [bind, Except.bind]

namespace FileStore

variable {s s' s'' : FileStore} {names here : List String} {path : String} {e : FileEntry}

/-! ## One entry -/

/-- What is put in place of an entry that is there. -/
theorem entries_put_of_mem (h : s.entries.any (·.1 = names) = true) :
    (s.put names e).entries =
      s.entries.map fun entry => (entry.1, if entry.1 = names then e else entry.2) := by
  unfold put
  rw [if_pos h]
  refine List.map_congr_left fun entry _ => ?_
  dsimp only
  split <;> rfl

theorem entries_put_of_not_mem (h : ¬ s.entries.any (·.1 = names) = true) :
    (s.put names e).entries = s.entries ++ [(names, e)] := by
  unfold put
  rw [if_neg h]

/-- **An entry that was put in place** is found there, and all others as before. -/
theorem find?_put (hnames : names ≠ []) (other : List String) :
    (s.put names e).find? other = if other = names then some e else s.find? other := by
  have hthere : s.entries.any (·.1 = names) = true ↔ names ∈ s.entries.map Prod.fst := by
    simp
  have hlookup : (s.put names e).entries.lookup other =
      if other = names then some e else s.entries.lookup other := by
    by_cases hany : s.entries.any (·.1 = names) = true
    · rw [entries_put_of_mem hany, lookup_map_value]
      by_cases hother : other = names
      · subst hother
        obtain ⟨old, hold⟩ :=
          Option.isSome_iff_exists.mp (isSome_lookup_iff.mpr (hthere.mp hany))
        simp [hold]
      · simp [hother]
    · rw [entries_put_of_not_mem hany, lookup_append_single]
      by_cases hother : other = names
      · subst hother
        have hnone := lookup_eq_none_iff_not_mem.mpr (mt hthere.mpr hany)
        simp [hnone]
      · simp [hother]
  unfold find?
  by_cases hempty : other = []
  · subst hempty
    simp [hnames.symm]
  · simpa [hempty] using hlookup

/-! ## What is kept -/

/-- What is there stays there, except that files may have a new content. -/
structure Keeps (s s' : FileStore) : Prop where
  start : s'.workingDirectory = s.workingDirectory
  directory : ∀ {names}, s.find? names = some .directory → s'.find? names = some .directory
  file : ∀ {names content}, s.find? names = some (.file content) →
    ∃ content', s'.find? names = some (.file content')

namespace Keeps

theorem refl (s : FileStore) : Keeps s s :=
  ⟨rfl, id, fun h => ⟨_, h⟩⟩

theorem trans (h : Keeps s s') (h' : Keeps s' s'') : Keeps s s'' where
  start := h'.start.trans h.start
  directory hfound := h'.directory (h.directory hfound)
  file hfound := by
    obtain ⟨content', hfound'⟩ := h.file hfound
    exact h'.file hfound'

/-- **Paths lead where they led before.** -/
theorem follow (h : Keeps s s') {parts : List String} (hfollow : s.follow here parts = .ok names) :
    s'.follow here parts = .ok names := by
  induction parts generalizing here with
  | nil => exact hfollow
  | cons part rest ih =>
      cases hhere : s.find? here with
      | none => simp [FileStore.follow, hhere] at hfollow
      | some entry =>
          cases entry with
          | file content => simp [FileStore.follow, hhere] at hfollow
          | directory =>
              simp only [FileStore.follow, hhere, h.directory hhere] at hfollow ⊢
              by_cases hstay : part = "" ∨ part = "."
              · rw [if_pos hstay] at hfollow ⊢
                exact ih hfollow
              · rw [if_neg hstay] at hfollow ⊢
                by_cases hup : part = ".."
                · rw [if_pos hup] at hfollow ⊢
                  exact ih hfollow
                · rw [if_neg hup] at hfollow ⊢
                  exact ih hfollow

theorem resolve (h : Keeps s s') (hresolve : s.resolve path = .ok names) :
    s'.resolve path = .ok names := by
  unfold FileStore.resolve at hresolve ⊢
  by_cases hempty : path = ""
  · rw [if_pos hempty] at hresolve
    cases hresolve
  · rw [if_neg hempty] at hresolve ⊢
    rw [h.start]
    exact h.follow hresolve

end Keeps

/-- What a path leads to is what its names lead to. -/
theorem get_eq_ok_iff : s.get path = .ok e ↔
    ∃ names, s.resolve path = .ok names ∧ s.find? names = some e := by
  unfold get
  rw [bind_eq_ok_iff]
  refine exists_congr fun names => and_congr_right fun _ => ?_
  cases s.find? names with
  | none => simp [throw, throwThe, MonadExceptOf.throw]
  | some entry => simp [pure, Except.pure]

theorem read_eq_ok_iff {content : ByteArray} :
    s.read path = .ok content ↔ s.get path = .ok (.file content) := by
  unfold read
  rw [bind_eq_ok_iff]
  constructor
  · rintro ⟨entry, hget, hread⟩
    cases entry with
    | file old => rw [hget, Except.ok.inj hread]
    | directory => cases hread
  · intro hget
    exact ⟨_, hget, rfl⟩

theorem readText_eq_ok_iff {text : String} : s.readText path = .ok text ↔
    ∃ content, s.get path = .ok (.file content) ∧ String.fromUTF8? content = some text := by
  unfold readText
  rw [bind_eq_ok_iff]
  refine exists_congr fun content => and_congr read_eq_ok_iff ?_
  cases String.fromUTF8? content with
  | none => simp [throw, throwThe, MonadExceptOf.throw]
  | some read => simp [pure, Except.pure]

theorem isFile_iff : s.isFile path = true ↔ ∃ content, s.get path = .ok (.file content) := by
  unfold isFile
  split
  · rename_i content hget
    simp [hget]
  · rename_i hother
    simp only [Bool.false_eq_true, false_iff]
    rintro ⟨content, hget⟩
    exact hother content hget

/-- What a directory lists are the last names of what lies directly in it. -/
theorem mem_list?_iff {name : String} : name ∈ (s.list? path).getD [] ↔
    ∃ here, s.resolve path = .ok here ∧ s.find? here = some .directory ∧
      here ++ [name] ∈ s.entries.map Prod.fst := by
  unfold list?
  cases hresolve : s.resolve path with
  | error e => simp
  | ok here =>
      have hlast : ∀ names : List String,
          (if names.dropLast = here then names.getLast? else none) = some name ↔
            names = here ++ [name] := by
        intro names
        rw [Option.ite_none_right_eq_some, List.getLast?_eq_some_iff]
        constructor
        · rintro ⟨hfront, front, rfl⟩
          rw [← hfront, List.dropLast_concat]
        · rintro rfl
          exact ⟨List.dropLast_concat, here, rfl⟩
      have hdirectory : s.isDirectoryAt here = true ↔ s.find? here = some .directory :=
        decide_eq_true_iff
      simp only [Except.ok.injEq, exists_eq_left', ← hdirectory]
      split
      · rename_i hthere
        simp [hthere, hlast, List.mem_mergeSort]
      · rename_i hthere
        simp [hthere]

/-- What was a file is one still. -/
theorem Keeps.isFile (h : Keeps s s') (hfile : s.isFile path = true) : s'.isFile path = true := by
  obtain ⟨content, hget⟩ := isFile_iff.mp hfile
  obtain ⟨names, hresolve, hfound⟩ := get_eq_ok_iff.mp hget
  obtain ⟨content', hfound'⟩ := h.file hfound
  exact isFile_iff.mpr ⟨content', get_eq_ok_iff.mpr ⟨names, h.resolve hresolve, hfound'⟩⟩

/-! ## Writing -/

/-- Nothing is written in place of the root directory. -/
theorem ne_nil_of_find? (h : s.find? names ≠ some .directory) : names ≠ [] := by
  rintro rfl
  exact h rfl

theorem keeps_put (hfound : s.find? names ≠ some .directory) (content : ByteArray) :
    Keeps s (s.put names (.file content)) where
  start := rfl
  directory {other} hother := by
    have hne : other ≠ names := by
      rintro rfl
      exact hfound hother
    rw [find?_put (ne_nil_of_find? hfound), if_neg hne, hother]
  file {other old} hother := by
    rw [find?_put (ne_nil_of_find? hfound)]
    by_cases hsame : other = names
    · exact ⟨content, if_pos hsame⟩
    · exact ⟨old, by rw [if_neg hsame, hother]⟩

theorem keeps_put_new (hfound : s.find? names = none) (e : FileEntry) :
    Keeps s (s.put names e) := by
  have hnames : names ≠ [] := by
    rintro rfl
    cases hfound
  have hothers : ∀ other, s.find? other ≠ none → (s.put names e).find? other = s.find? other := by
    intro other hother
    have hne : other ≠ names := by
      rintro rfl
      exact hother hfound
    rw [find?_put hnames, if_neg hne]
  refine ⟨rfl, fun hother => ?_, fun {other old} hother => ⟨old, ?_⟩⟩
  · rw [hothers _ (by simp [hother]), hother]
  · rw [hothers _ (by simp [hother]), hother]

/-- What writing a file does: it puts the file where the path leads, if that is
no directory. -/
theorem write_eq_ok {content : ByteArray} (h : s.write path content = .ok s') :
    ∃ names, s.resolve path = .ok names ∧ s.find? names ≠ some .directory ∧
      s' = s.put names (.file content) := by
  obtain ⟨names, hresolve, hput⟩ := bind_eq_ok_iff.mp h
  refine ⟨names, hresolve, ?_⟩
  split at hput
  · cases hput
  · rename_i hfound
    exact ⟨hfound, (Except.ok.inj hput).symm⟩

theorem keeps_write {content : ByteArray} (h : s.write path content = .ok s') : Keeps s s' := by
  obtain ⟨names, -, hfound, rfl⟩ := write_eq_ok h
  exact keeps_put hfound content

theorem keeps_makeAlong {parts : List String} (h : s.makeAlong here parts = .ok s') :
    Keeps s s' := by
  induction parts generalizing s here with
  | nil => exact Except.ok.inj h ▸ Keeps.refl s
  | cons part rest ih =>
      rw [makeAlong] at h
      by_cases hstay : part = "" ∨ part = "."
      · rw [if_pos hstay] at h
        exact ih h
      · rw [if_neg hstay] at h
        by_cases hup : part = ".."
        · rw [if_pos hup] at h
          exact ih h
        · rw [if_neg hup] at h
          dsimp only at h
          split at h
          · exact ih h
          · cases h
          · rename_i hnone
            exact (keeps_put_new hnone .directory).trans (ih h)

theorem keeps_makeDirectories (h : s.makeDirectories path = .ok s') : Keeps s s' := by
  unfold makeDirectories at h
  split at h
  · exact Except.ok.inj h ▸ Keeps.refl s
  · exact keeps_makeAlong h

/-- **A text that was written is read.** -/
theorem readText_writeText {text : String} (h : s.writeText path text = .ok s') :
    s'.readText path = .ok text := by
  obtain ⟨names, hresolve, hfound, hput⟩ := write_eq_ok h
  have hresolve' : s'.resolve path = .ok names := (keeps_write h).resolve hresolve
  have hfound' : s'.find? names = some (.file text.toUTF8) := by
    rw [hput, find?_put (ne_nil_of_find? hfound), if_pos rfl]
  have hget : s'.get path = .ok (.file text.toUTF8) :=
    get_eq_ok_iff.mpr ⟨names, hresolve', hfound'⟩
  exact readText_eq_ok_iff.mpr ⟨text.toUTF8, hget, decode_encode text⟩

end FileStore

end CodeFence
