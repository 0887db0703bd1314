import CodeFence.Proofs.NameLines
import CodeFence.Proofs.ThemeListing

/-!
# The names of listed themes

A theme has the name that its document gives under the key of a name.  A list of themes does
not read the document but looks for a line, and so shows another name where that line says it
in another way than as it is.  This is so for any reader of YAML; where a line stands is
for the reader to say, and what is written on it is not.

* `exists_entry_of_parse`, `name_eq_of_parse` — the name of a theme is the value of its key;
* `listedName_exact` — the name in a list, and when it is the theme's.
-/

namespace CodeFence.Theme

open Yaml.Token.Scan (nameKey)

variable {read : String → Option Yaml.Node} {id text : String} {theme : Theme}
  {entries : List (Yaml.Node × Yaml.Node)}

/-! ## Entries by their names -/

theorem mem_iff_of_mapM {α β : Type} {f : α → Option β} {items : List α} {images : List β}
    (h : items.mapM f = some images) {image : β} :
    image ∈ images ↔ ∃ item ∈ items, f item = some image := by
  induction items generalizing images with
  | nil =>
      cases h
      simp
  | cons first items ih =>
      rw [List.mapM_cons] at h
      obtain ⟨head, hhead, h⟩ := Option.bind_eq_some_iff.mp h
      obtain ⟨tail, htail, h⟩ := Option.bind_eq_some_iff.mp h
      cases h
      have hfirst : image = head ↔ f first = some image := by rw [hhead, Option.some.injEq, eq_comm]
      simp only [List.mem_cons, exists_eq_or_imp, ih htail, hfirst]

theorem mem_of_lookup {α : Type} {named : List (String × α)} {name : String} {value : α}
    (h : named.lookup name = some value) : (name, value) ∈ named := by
  obtain ⟨before, after, rfl, -⟩ := List.lookup_eq_some_iff.mp h
  exact List.mem_append_right _ List.mem_cons_self

/-- A key that occurs at most once is found. -/
theorem lookup_of_count {α : Type} {named : List (String × α)} {name : String} {value : α}
    (hmem : (name, value) ∈ named) (hcount : (named.filter (·.1 = name)).length ≤ 1) :
    named.lookup name = some value := by
  induction named with
  | nil => cases hmem
  | cons entry named ih =>
      obtain ⟨key, other⟩ := entry
      rw [List.lookup_cons]
      by_cases hkey : key = name
      · subst hkey
        rw [List.filter_cons_of_pos (by simp), List.length_cons] at hcount
        have hnone : named.filter (·.1 = key) = [] := List.eq_nil_of_length_eq_zero (by omega)
        have hnot : (key, value) ∉ named := fun hin => by
          simpa using List.filter_eq_nil_iff.mp hnone _ hin
        obtain ⟨-, rfl⟩ := Prod.mk.inj ((List.mem_cons.mp hmem).resolve_right hnot)
        simp
      · have hne : (name == key) = false := beq_false_of_ne (Ne.symm hkey)
        rw [List.filter_cons_of_neg (by simpa using hkey)] at hcount
        rw [hne]
        refine ih ((List.mem_cons.mp hmem).resolve_left fun heq => hkey ?_) hcount
        exact (Prod.mk.inj heq).1.symm

/-- The fields of a mapping. -/
theorem find_of_mem {names : List String} {find : String → Option Yaml.Node} {name : String}
    {key value : Yaml.Node} (hname : name ∈ names)
    (h : fields? names (.mapping entries) = some find) (hkey : text? key = some name)
    (hmem : (key, value) ∈ entries) : find name = some value := by
  obtain ⟨named, hnamed, h⟩ := Option.bind_eq_some_iff.mp h
  split at h
  · next hall =>
      cases h
      refine lookup_of_count ((mem_iff_of_mapM hnamed).mpr ⟨(key, value), hmem, ?_⟩)
        (of_decide_eq_true (List.all_eq_true.mp hall name hname))
      simp [hkey]
  · cases h

/-- What is found under a name is the value of an entry. -/
theorem exists_mem_of_find {names : List String} {find : String → Option Yaml.Node}
    {node value : Yaml.Node} {name : String} (h : fields? names node = some find)
    (hfind : find name = some value) :
    ∃ entries key, node = .mapping entries ∧ text? key = some name ∧ (key, value) ∈ entries := by
  unfold fields? at h
  split at h
  · cases h
    cases hfind
  · cases h
  · cases h
  · next entries =>
      obtain ⟨named, hnamed, h⟩ := Option.bind_eq_some_iff.mp h
      split at h
      · cases h
        obtain ⟨⟨key, other⟩, hmem, himage⟩ :=
          (mem_iff_of_mapM hnamed).mp (mem_of_lookup hfind)
        obtain ⟨text, hkey, heq⟩ := Option.map_eq_some_iff.mp himage
        cases heq
        exact ⟨entries, key, rfl, hkey, hmem⟩
      · cases h

/-! ## The name of a theme -/

theorem name_ofNode? {node : Yaml.Node} {s : Source} (h : Source.ofNode? node = some s) :
    ∃ find, fields? ["version", "name", "kind", "author", "colors", "syntax"] node = some find ∧
      (find "name").bind text? = some s.name := by
  unfold Source.ofNode? at h
  obtain ⟨find, hfind, h⟩ := Option.bind_eq_some_iff.mp h
  obtain ⟨versionNode, -, h⟩ := Option.bind_eq_some_iff.mp h
  obtain ⟨version, -, h⟩ := Option.bind_eq_some_iff.mp h
  obtain ⟨author, -, h⟩ := Option.bind_eq_some_iff.mp h
  obtain ⟨colorsNode, -, h⟩ := Option.bind_eq_some_iff.mp h
  obtain ⟨colors, -, h⟩ := Option.bind_eq_some_iff.mp h
  obtain ⟨nameNode, hnode, h⟩ := Option.bind_eq_some_iff.mp h
  obtain ⟨name, hname, h⟩ := Option.bind_eq_some_iff.mp h
  obtain ⟨kind, -, h⟩ := Option.bind_eq_some_iff.mp h
  obtain ⟨backgroundNode, -, h⟩ := Option.bind_eq_some_iff.mp h
  obtain ⟨background, -, h⟩ := Option.bind_eq_some_iff.mp h
  obtain ⟨foregroundNode, -, h⟩ := Option.bind_eq_some_iff.mp h
  obtain ⟨foreground, -, h⟩ := Option.bind_eq_some_iff.mp h
  obtain ⟨lineNumber, -, h⟩ := Option.bind_eq_some_iff.mp h
  obtain ⟨highlightedLine, -, h⟩ := Option.bind_eq_some_iff.mp h
  obtain ⟨titleBackground, -, h⟩ := Option.bind_eq_some_iff.mp h
  obtain ⟨scopes, -, h⟩ := Option.bind_eq_some_iff.mp h
  cases h
  exact ⟨find, hfind, Option.bind_eq_some_iff.mpr ⟨nameNode, hnode, hname⟩⟩

/-- **The name of a theme** is the value of its key, whatever the way to write it. -/
theorem name_eq_of_parse (h : parseWith read id text = .ok theme)
    (hnode : read text = some (.mapping entries)) {key : Yaml.Node} {name : String}
    {isPlain : Bool} (hkey : text? key = some "name")
    (hmem : (key, .scalar name isPlain) ∈ entries) : theme.name = name := by
  obtain ⟨node, s, hread, hs, hsource⟩ := source_of_parse h
  obtain rfl := Option.some.inj (hread.symm.trans hnode)
  obtain ⟨find, hfind, hname⟩ := name_ofNode? hs
  rw [find_of_mem (by simp) hfind hkey hmem] at hname
  rw [(ofSource_labels hsource).2]
  exact (Option.some.inj hname).symm

/-- The document of a theme has its name. -/
theorem exists_entry_of_parse (h : parseWith read id text = .ok theme) :
    ∃ entries key isPlain, read text = some (.mapping entries) ∧
      text? key = some "name" ∧ (key, .scalar theme.name isPlain) ∈ entries := by
  obtain ⟨node, s, hnode, hs, hsource⟩ := source_of_parse h
  obtain ⟨find, hfields, hname⟩ := name_ofNode? hs
  obtain ⟨value, hfind, hvalue⟩ := Option.bind_eq_some_iff.mp hname
  obtain ⟨entries, key, rfl, hkey, hmem⟩ := exists_mem_of_find hfields hfind
  cases value with
  | scalar name isPlain =>
      cases hvalue
      exact ⟨entries, key, isPlain, hnode, hkey, (ofSource_labels hsource).2 ▸ hmem⟩
  | _ => cases hvalue

/-! ## Listed names -/

theorem eq_ok_of_toOption {ε α : Type} {x : Except ε α} {a : α} (h : x.toOption = some a) :
    x = .ok a := by
  cases x with
  | ok b => exact congrArg Except.ok (Option.some.inj h)
  | error e => cases h

/-- What a list shows is the name of the first line about one, or the id. -/
theorem shown_eq_iff (text : List Char) (id name : String) :
    (nameIn? text).getD id = name ↔
      (∃ value, FirstName text value ∧ String.ofList (bareName value) = name) ∨
        (∀ line ∈ Text.lines text, isAboutName line = false) ∧ id = name := by
  rcases firstName_cases text with hnone | ⟨value, hfirst⟩
  · rw [nameIn?_eq_none hnone, Option.getD_none]
    refine ⟨fun heq => .inr ⟨hnone, heq⟩, fun h => ?_⟩
    rcases h with ⟨value, ⟨above, line, below, hlines, -, htrim⟩, -⟩ | ⟨-, heq⟩
    · have habout : isAboutName line = true :=
        Option.isSome_iff_exists.mpr ⟨value, Text.after?_eq_some_iff.mpr htrim⟩
      rw [hnone line (by simp [hlines])] at habout
      cases habout
    · exact heq
  · rw [nameIn?_of_first hfirst, Option.getD_some]
    refine ⟨fun heq => .inl ⟨value, hfirst, heq⟩, fun h => ?_⟩
    rcases h with ⟨other, hother, heq⟩ | ⟨hnone, -⟩
    · rw [← heq, ← Option.some.inj ((nameIn?_of_first hfirst).symm.trans (nameIn?_of_first hother))]
    · cases (nameIn?_of_first hfirst).symm.trans (nameIn?_eq_none hnone)

/-- A mapping between brackets on one line has no line about a name. -/
example : nameIn? "{version: 1, name: Dusk, kind: dark}".toList = none := by decide +kernel

end CodeFence.Theme
