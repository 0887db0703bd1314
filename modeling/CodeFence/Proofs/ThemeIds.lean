import CodeFence.Proofs.ElementClasses
import CodeFence.Proofs.FileStores
import CodeFence.Theme.Lookup

/-!
# Ids of themes

A theme that can be loaded carries the id by which it was asked for, and that
id has no blanks and is not empty.  So, used as a class, it is one class.

* `ofSource_labels` — reading the colors of a theme changes neither its id nor its name;
* `source_of_parse`, `source_of_load` — a theme that is loaded is read from a source, and
  where that comes from;
* `load_id` — a theme file cannot choose another id;
* `isSafeId_of_load` — nothing is loaded by an id that is not safe;
* `classesOf_of_isSafeId` — a safe id is one class.
-/

namespace CodeFence.Theme

/-- Only the colors of a theme are read; its id and its name are taken as they are. -/
theorem ofSource_labels {id : String} {s : Source} {t : Theme} (h : ofSource id s = .ok t) :
    t.id = id ∧ t.name = s.name := by
  unfold ofSource at h
  obtain ⟨background, -, h⟩ := bind_eq_ok_iff.mp h
  obtain ⟨foreground, -, h⟩ := bind_eq_ok_iff.mp h
  obtain ⟨scopes, -, h⟩ := bind_eq_ok_iff.mp h
  obtain ⟨lineNumber, -, h⟩ := bind_eq_ok_iff.mp h
  obtain ⟨highlightedLine, -, h⟩ := bind_eq_ok_iff.mp h
  obtain ⟨titleBackground, -, h⟩ := bind_eq_ok_iff.mp h
  cases h
  exact ⟨rfl, rfl⟩

variable {files : FileStore} {id : String} {directories : List String} {t : Theme}

/-- A theme that is read from a text has its source in the document of the text. -/
theorem source_of_parse {read : String → Option Yaml.Node} {text : String}
    (h : parseWith read id text = .ok t) :
    ∃ node s, read text = some node ∧ Source.ofNode? node = some s ∧ ofSource id s = .ok t := by
  unfold parseWith at h
  split at h
  · next s hsource =>
      obtain ⟨node, hnode, hs⟩ := Option.bind_eq_some_iff.mp hsource
      exact ⟨node, s, hnode, hs, h⟩
  · cases h

/-- A theme that is loaded has its source in a file that was found, or is built in. -/
theorem source_of_load (h : load files id directories = .ok t) :
    ∃ s, ofSource id s = .ok t ∧
      ((findFile? files id directories).isSome = true ∨ builtin? id = some s) := by
  unfold load at h
  cases hfound : findFile? files id directories with
  | none =>
      rw [hfound] at h
      dsimp only at h
      unfold ofBuiltin at h
      split at h
      · next s hs => exact ⟨s, h, Or.inr hs⟩
      · cases h
  | some path =>
      rw [hfound] at h
      dsimp only at h
      split at h
      · obtain ⟨-, s, -, -, hs⟩ := source_of_parse h
        exact ⟨s, hs, Or.inl rfl⟩
      · cases h

/-- **The id of a theme** is the one by which it was asked for. -/
theorem load_id (h : load files id directories = .ok t) : t.id = id := by
  obtain ⟨s, hs, -⟩ := source_of_load h
  exact (ofSource_labels hs).1

theorem isSafeId_of_builtin {s : Source} (h : builtin? id = some s) : isSafeId id = true := by
  have hall : ∀ entry ∈ builtins, isSafeId entry.1 = true := by decide +kernel
  obtain ⟨front, back, hsplit, -⟩ := List.lookup_eq_some_iff.mp h
  exact hall (id, s) (by rw [hsplit]; simp)

/-- A safe id is not empty. -/
theorem ne_empty_of_isSafeId (h : isSafeId id = true) : id ≠ "" := by
  rintro rfl
  cases h

/-- A safe id leads into no directory. -/
theorem slash_not_mem_of_isSafeId (h : isSafeId id = true) : '/' ∉ id.toList := by
  unfold isSafeId at h
  simp only [Bool.and_eq_true, List.all_eq_true] at h
  exact fun hslash => absurd (h.1.2 '/' hslash) (by decide)

/-- No file is found for an id that is not safe. -/
theorem isSafeId_of_findFile? (h : (findFile? files id directories).isSome = true) :
    isSafeId id = true := by
  cases hsafe : isSafeId id with
  | true => rfl
  | false => simp [findFile?, hsafe] at h

/-- Ids that are not safe name no theme. -/
theorem isSafeId_of_load (h : load files id directories = .ok t) : isSafeId id = true := by
  obtain ⟨s, -, hfound | hbuiltin⟩ := source_of_load h
  · exact isSafeId_of_findFile? hfound
  · exact isSafeId_of_builtin hbuiltin

theorem isBlank_of_isAlphanum {c : Char} (h : c.isAlphanum = true) :
    Text.isBlank c = false := by
  have hletters : ((decide ('A'.val ≤ c.val ∧ c.val ≤ 'Z'.val) ||
      (decide ('a'.val ≤ c.val) && decide (c.val ≤ 'z'.val))) ||
      (decide ('0'.val ≤ c.val) && decide (c.val ≤ '9'.val))) = true := h
  simp only [Bool.or_eq_true, Bool.and_eq_true, decide_eq_true_eq, UInt32.le_iff_toNat_le] at hletters
  change ((65 ≤ c.toNat ∧ c.toNat ≤ 90) ∨ (97 ≤ c.toNat ∧ c.toNat ≤ 122)) ∨
    (48 ≤ c.toNat ∧ c.toNat ≤ 57) at hletters
  cases hblank : Text.isBlank c with
  | false => rfl
  | true =>
      obtain ⟨range, hrange, hlo, hhi⟩ := Text.within_iff.mp hblank
      simp only [Text.blankRanges, List.mem_cons, List.not_mem_nil, or_false] at hrange
      rcases hrange with rfl | rfl | rfl | rfl | rfl | rfl | rfl | rfl | rfl | rfl <;> omega

/-- A safe id is one class. -/
theorem classesOf_of_isSafeId (h : isSafeId id = true) :
    Markup.Element.classesOf id = [id] := by
  have hne : id.toList ≠ [] := mt String.toList_eq_nil_iff.mp (ne_empty_of_isSafeId h)
  unfold isSafeId at h
  simp only [Bool.and_eq_true, List.all_eq_true] at h
  have hchars := h.1.2
  have hblank : ∀ c ∈ id.toList, Text.isBlank c = false := by
    intro c hc
    have hsafe := hchars c hc
    simp only [Bool.or_eq_true, decide_eq_true_eq] at hsafe
    rcases hsafe with ((halnum | rfl) | rfl) | rfl
    · exact isBlank_of_isAlphanum halnum
    · decide
    · decide
    · decide
  unfold Markup.Element.classesOf
  rw [Text.words_of_no_blank hne hblank]
  simp

end CodeFence.Theme
