import CodeFence.Proofs.Directives
import CodeFence.Proofs.LanguageNames
import CodeFence.Proofs.LineSearch

/-!
# Configurations that were read

Whatever an info string says, the configuration that is read from it has a
canonical language, a first line, and no empty label or theme.  A directive checks
its value before it makes a change of it, so every change is sound; and what is
read is made of the default and of changes.  Only the two folding states can
contradict each other, and nothing but their own words asks for them.

* `Change.FromValue` — the changes that a directive makes of its value;
* `changes_ofWord_cases` — a change is a flag's, or made of a value;
* `mem_changesOf_flag_iff` — a flag is raised by its own word;
* `BlockConfig.InModel` — what holds of a configuration that was read;
* `parse_inModel` — info strings are read within the model.
-/

namespace CodeFence

/-- What holds of every configuration that was read: its language is a canonical name,
its lines are counted from one or a later number, a label has between 1 and 200
characters, and a theme is not empty. -/
structure BlockConfig.InModel (c : BlockConfig) : Prop where
  language_ne : c.language ≠ ""
  language_trimmed : Text.trimmed c.language = c.language
  language_canonical : canonicalLanguage c.language = c.language
  startLine : 1 ≤ c.startLine
  title : ∀ t ∈ c.title, 1 ≤ t.length ∧ t.length ≤ 200
  filename : ∀ f ∈ c.filename, 1 ≤ f.length ∧ f.length ≤ 200
  theme : ∀ id ∈ c.theme, id ≠ ""

namespace InfoString

variable {α : Type} {c : Change} {word value : List Char} {words : List (List Char)}

/-! ## Changes -/

/-- A label that is neither empty nor longer than labels may be. -/
def IsLabel (label : String) : Prop :=
  1 ≤ label.length ∧ label.length ≤ maxLabelLength

/-- What a directive makes of its value: it marks lines that can be marked, counts them
from a positive number of 32 bits, and gives no empty label or theme.  It never raises
a flag. -/
def Change.FromValue : Change → Prop
  | mark lines => lines.isSound = true
  | showNumbers _ => True
  | startAt line => 1 ≤ line ∧ line < Text.bitBound 32
  | title label => IsLabel label
  | filename label => IsLabel label
  | theme id => id ≠ ""
  | fold => False
  | unfold => False
  | exclude => False

theorem isLabel_of_capLabel {label : String} (h : capLabel value = some label) :
    IsLabel label := by
  obtain ⟨hne, rfl⟩ := capLabel_eq_some_iff.mp h
  have hpos := List.length_pos_of_ne_nil hne
  have hmax : 0 < maxLabelLength := by decide
  rw [IsLabel, String.length_ofList, List.length_take]
  omega

namespace Directive

theorem fromValue_of_mem_ofLineSpec (hc : c ∈ (ofLineSpec value).changes) : c.FromValue := by
  obtain ⟨lines, hlines, rfl⟩ := List.mem_map.mp hc
  obtain ⟨fragment, -, hread⟩ := List.mem_filterMap.mp hlines
  exact (Option.filter_eq_some_iff.mp hread).2

theorem fromValue_of_mem_ofLineNumber (hc : c ∈ (ofLineNumber value).changes) :
    c.FromValue := by
  rcases ofLineNumber_cases value with ⟨on, h⟩ | ⟨line, skipped, hpos, hlt, -, h⟩ | h |
    ⟨n, -, -, h⟩
  · rw [h] at hc
    rw [List.mem_singleton.mp hc]
    trivial
  · rw [h] at hc
    simp only [List.mem_cons, List.not_mem_nil, or_false] at hc
    rcases hc with rfl | rfl
    · trivial
    · exact ⟨hpos, hlt⟩
  · rw [h] at hc
    exact absurd hc List.not_mem_nil
  · rw [h] at hc
    rw [List.mem_singleton.mp hc]
    trivial

theorem fromValue_of_mem_ofLabel {change : String → Change}
    (hchange : ∀ label, IsLabel label → (change label).FromValue)
    (hc : c ∈ (ofLabel value change).changes) : c.FromValue := by
  rcases ofLabel_cases value change with ⟨label, hlabel, h⟩ | ⟨-, h⟩
  · rw [h] at hc
    rw [List.mem_singleton.mp hc]
    exact hchange label (isLabel_of_capLabel hlabel)
  · rw [h] at hc
    exact absurd hc List.not_mem_nil

theorem fromValue_of_mem_ofTheme (hc : c ∈ (ofTheme value).changes) : c.FromValue := by
  rcases ofTheme_cases value with ⟨hne, h⟩ | ⟨-, h⟩
  · rw [h] at hc
    rw [List.mem_singleton.mp hc]
    exact mt String.ofList_eq_empty_iff.mp hne
  · rw [h] at hc
    exact absurd hc List.not_mem_nil

/-- **A change is a flag's, or made of a value.** -/
theorem changes_ofWord_cases (hc : c ∈ (ofWord word).changes) :
    (∃ entry ∈ flags, word = entry.1.toList ∧ c = entry.2) ∨ c.FromValue := by
  rcases ofWord_cases word with ⟨entry, hentry, hword, hof⟩ |
    ⟨entry, hentry, value, -, hof⟩ | hof
  · rw [hof] at hc
    exact Or.inl ⟨entry, hentry, hword, List.mem_singleton.mp hc⟩
  · right
    rw [hof] at hc
    simp only [readers, List.mem_cons, List.not_mem_nil, or_false] at hentry
    rcases hentry with rfl | rfl | rfl | rfl | rfl | rfl
    · exact fromValue_of_mem_ofLineSpec hc
    · exact fromValue_of_mem_ofLineNumber hc
    · exact fromValue_of_mem_ofLabel (fun _ => id) hc
    · exact fromValue_of_mem_ofLabel (fun _ => id) hc
    · exact fromValue_of_mem_ofLabel (fun _ => id) hc
    · exact fromValue_of_mem_ofTheme hc
  · rw [hof] at hc
    cases hc

end Directive

/-- **Flags are raised by their own words**, if no other directive raises them. -/
theorem mem_changesOf_flag_iff {name : String} {flag : Change}
    (hflag : (name, flag) ∈ Directive.flags) (hvalue : ¬ flag.FromValue) :
    flag ∈ changesOf words ↔ name.toList ∈ words := by
  have hnames : ∀ entry ∈ Directive.flags, ∀ entry' ∈ Directive.flags,
      entry.2 = entry'.2 → entry.1 = entry'.1 := by
    decide
  have hlookup : ∀ entry ∈ Directive.flags, Directive.flags.lookup entry.1 = some entry.2 := by
    decide
  rw [mem_changesOf]
  constructor
  · rintro ⟨word, hword, hmem⟩
    rcases Directive.changes_ofWord_cases hmem with ⟨entry, hentry, rfl, heq⟩ | hmade
    · rwa [← hnames _ hflag _ hentry heq] at hword
    · exact absurd hmade hvalue
  · intro hword
    refine ⟨name.toList, hword, ?_⟩
    rw [Directive.ofWord, String.ofList_toList, hlookup _ hflag]
    exact List.mem_singleton_self flag

/-- The latest value of a kind that no flag gives was made of a value. -/
theorem fromValue_of_latest? {view : Change → Option α} {a : α}
    (hflags : ∀ entry ∈ Directive.flags, view entry.2 = none)
    (h : latest? view (changesOf words) = some a) : ∃ c : Change, c.FromValue ∧ view c = some a := by
  obtain ⟨c, hc, hview⟩ := List.mem_filterMap.mp (List.mem_of_getLast? h)
  obtain ⟨word, -, hmem⟩ := mem_changesOf.mp hc
  rcases Directive.changes_ofWord_cases hmem with ⟨entry, hentry, -, rfl⟩ | hmade
  · rw [hflags entry hentry] at hview
    cases hview
  · exact ⟨c, hmade, hview⟩

/-! ## Configurations -/

/-- **What words are read as is within the model.** -/
theorem inModel_ofWords (language : List Char) (words : List (List Char)) :
    (ofWords (language :: words)).config.InModel := by
  have hname := isCanonical_canonicalLanguage (String.ofList language)
  rw [config_ofWords]
  constructor <;> dsimp only
  case language_ne => exact hname.ne_empty
  case language_trimmed => exact hname.trimmed
  case language_canonical => exact hname.canonicalLanguage_eq
  case startLine =>
    cases hstart : latest? Change.start? (changesOf words) with
    | none => exact Nat.le_refl 1
    | some line =>
        obtain ⟨c, hmade, hview⟩ := fromValue_of_latest? (by decide) hstart
        cases c <;> cases hview
        exact hmade.1
  case title =>
    intro label htitle
    obtain ⟨c, hmade, hview⟩ := fromValue_of_latest? (by decide) htitle
    cases c <;> cases hview
    exact hmade
  case filename =>
    intro label hfilename
    obtain ⟨c, hmade, hview⟩ := fromValue_of_latest? (by decide) hfilename
    cases c <;> cases hview
    exact hmade
  case theme =>
    intro id htheme
    obtain ⟨c, hmade, hview⟩ := fromValue_of_latest? (by decide) htheme
    cases c <;> cases hview
    exact hmade

/-- **What words are read as is valid**, unless they ask for both folding states. -/
theorem isValid_ofWords_iff (language : List Char) (words : List (List Char)) :
    (ofWords (language :: words)).config.isValid = true ↔
      ¬ ("fold".toList ∈ words ∧ "unfold".toList ∈ words) := by
  have hstart := (inModel_ofWords language words).startLine
  have hpositive : (LineRange.union ((changesOf words).filterMap Change.range?)).all
      (fun n => decide (0 < n)) = true := by
    rw [List.all_eq_true]
    intro n hn
    rw [decide_eq_true_eq]
    exact (LineRange.mem_union.mp hn).1
  have hascending : isAscending (LineRange.union ((changesOf words).filterMap Change.range?)) =
      true :=
    isAscending_iff.mpr (LineRange.pairwise_union _)
  have hfold : Change.fold ∈ changesOf words ↔ "fold".toList ∈ words :=
    mem_changesOf_flag_iff (by decide) id
  have hunfold : Change.unfold ∈ changesOf words ↔ "unfold".toList ∈ words :=
    mem_changesOf_flag_iff (by decide) id
  rw [config_ofWords] at hstart ⊢
  rw [BlockConfig.isValid, isBlankText_canonicalLanguage, decide_eq_true hstart, hpositive,
    hascending, ← hfold, ← hunfold, ← List.contains_iff_mem, ← List.contains_iff_mem,
    ← Bool.and_eq_true]
  simp only [Bool.not_false, Bool.true_and, Bool.not_eq_true', Bool.not_eq_true]

/-- An info string without words is read as plain text. -/
theorem config_ofWords_nil : (ofWords []).config = (ofWords [plainText.toList]).config := by
  have hname : IsCanonical plainText := isCanonical_of_mem_full List.mem_cons_self
  have hunion : LineRange.union [] = [] := by simp [LineRange.union, LineRange.linesFrom]
  rw [config_ofWords, String.ofList_toList, hname.canonicalLanguage_eq, changesOf, List.flatMap_nil,
    List.filterMap_nil, hunion]
  rfl

/-- The words behind the language, as characters. -/
theorem mem_tail_words_iff {info name : String} :
    name ∈ (InfoString.words info).tail ↔ name.toList ∈ (wordChars info.toList).tail := by
  rw [InfoString.words, ← List.map_tail, List.mem_map]
  constructor
  · rintro ⟨word, hword, rfl⟩
    rwa [String.toList_ofList]
  · intro hword
    exact ⟨name.toList, hword, String.ofList_toList⟩

/-- **Whatever is read is within the model**, and it is valid unless the words behind
the language ask for both folding states. -/
theorem parse_inModel (info : String) :
    (parse info).config.InModel ∧
      ((parse info).config.isValid = true ↔
        ¬ ("fold" ∈ (InfoString.words info).tail ∧ "unfold" ∈ (InfoString.words info).tail)) := by
  rw [mem_tail_words_iff, mem_tail_words_iff, parse]
  cases wordChars info.toList with
  | nil =>
      rw [config_ofWords_nil]
      exact ⟨inModel_ofWords plainText.toList [], isValid_ofWords_iff plainText.toList []⟩
  | cons language words =>
      exact ⟨inModel_ofWords language words, isValid_ofWords_iff language words⟩

end InfoString

end CodeFence
