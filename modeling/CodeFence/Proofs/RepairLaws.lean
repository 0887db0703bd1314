import CodeFence.Proofs.ConfigRepair
import CodeFence.Proofs.ReadConfigs

/-!
# What a repair leaves alone

A repair does more than to make a configuration valid: it also makes the language
canonical, cuts the labels and trims the theme, and none of this is asked of a
valid configuration.  A configuration is its own repair exactly if it is valid,
clean, and has no blanks around its theme.  Whatever is repaired is all of this,
so one repair is enough.

* `dropRepeats_of_pairwise` — rising lines are kept as they are;
* `bind_capLabel_eq_self_iff`, `trimmedTheme_eq_self_iff` — kept labels and themes;
* `BlockConfig.IsClean` — what the fields of a configuration are meant to hold;
* `sanitize_eq_self_iff` — what is its own repair;
* `sanitize_laws` — what a repair does.
-/

namespace CodeFence

/-! ## Single fields -/

/-- Rising numbers hold no repeats. -/
theorem dropRepeats_of_pairwise {ns : List Nat} (h : ns.Pairwise (· < ·)) :
    dropRepeats ns = ns := by
  induction ns with
  | nil => rfl
  | cons n rest ih =>
      obtain ⟨hfirst, hrest⟩ := List.pairwise_cons.mp h
      rw [dropRepeats_cons, ih hrest]
      cases rest with
      | nil => rfl
      | cons m more =>
          have hne : n ≠ m := Nat.ne_of_lt (hfirst m List.mem_cons_self)
          rw [consDistinct, if_neg hne]

/-- **Lines are kept** if they are positive and rise. -/
theorem repairedLines_of_pairwise {ns : List Nat} (hpositive : ∀ n ∈ ns, 0 < n)
    (hrise : ns.Pairwise (· < ·)) :
    dropRepeats ((ns.filter (0 < ·)).mergeSort (· ≤ ·)) = ns := by
  have hfilter : ns.filter (0 < ·) = ns :=
    List.filter_eq_self.mpr fun n hn => decide_eq_true (hpositive n hn)
  have hsorted : ns.mergeSort (· ≤ ·) = ns :=
    List.mergeSort_of_pairwise (hrise.imp fun hlt => decide_eq_true (Nat.le_of_lt hlt))
  rw [hfilter, hsorted, dropRepeats_of_pairwise hrise]

/-- **A label is kept** exactly if it is neither empty nor too long. -/
theorem bind_capLabel_eq_self_iff {label : Option String} :
    (label.bind fun t => capLabel t.toList) = label ↔
      ∀ t ∈ label, InfoString.IsLabel t := by
  cases label with
  | none => simp
  | some t =>
      rw [Option.bind_some]
      constructor
      · intro h label hlabel
        obtain rfl := Option.some.inj hlabel
        exact InfoString.isLabel_of_capLabel h
      · intro h
        obtain ⟨hpos, hmax⟩ := h t rfl
        have hne : t ≠ "" := by
          rintro rfl
          exact absurd hpos (by decide)
        exact capLabel_toList hne hmax

/-- **A theme is kept** exactly if it is not empty and has no blanks around it. -/
theorem trimmedTheme_eq_self_iff {theme : Option String} :
    (theme.map Text.trimmed).filter (· ≠ "") = theme ↔
      ∀ id ∈ theme, Text.trimmed id = id ∧ id ≠ "" := by
  cases theme with
  | none => simp
  | some id =>
      simp only [Option.map_some, Option.filter_eq_some_iff, Option.some.injEq, decide_eq_true_eq,
        Option.mem_some_iff, forall_eq']

namespace BlockConfig

variable {c : BlockConfig}

/-- A clean configuration: its language is a canonical name, a label has between 1
and 200 characters, and a theme is not blank. -/
structure IsClean (c : BlockConfig) : Prop where
  language : canonicalLanguage c.language = c.language
  title : ∀ t ∈ c.title, 1 ≤ t.length ∧ t.length ≤ 200
  filename : ∀ f ∈ c.filename, 1 ≤ f.length ∧ f.length ≤ 200
  theme : ∀ id ∈ c.theme, Text.isBlankText id = false

/-- What a valid configuration says of its lines and its folding. -/
theorem isValid_iff : c.isValid = true ↔
    Text.isBlankText c.language = false ∧ 1 ≤ c.startLine ∧ (∀ n ∈ c.highlightLines, 0 < n) ∧
      c.highlightLines.Pairwise (· < ·) ∧ (c.fold && c.unfold) = false := by
  simp only [isValid, Bool.and_eq_true, Bool.not_eq_true', decide_eq_true_eq, List.all_eq_true,
    isAscending_iff, and_assoc]

/-- **The marked lines of a repair** are the positive ones. -/
theorem mem_highlightLines_sanitize {n : Nat} :
    n ∈ c.sanitize.highlightLines ↔ 0 < n ∧ n ∈ c.highlightLines := by
  have hlines : c.sanitize.highlightLines =
      dropRepeats ((c.highlightLines.filter (0 < ·)).mergeSort (· ≤ ·)) := rfl
  rw [hlines, mem_dropRepeats, List.mem_mergeSort, List.mem_filter, decide_eq_true_eq, and_comm]

/-- **Whatever is repaired is clean**, and its theme has no blanks around it. -/
theorem isClean_sanitize (c : BlockConfig) :
    c.sanitize.IsClean ∧ ∀ id ∈ c.sanitize.theme, Text.trimmed id = id := by
  have htheme : ∀ id ∈ c.sanitize.theme, Text.trimmed id = id ∧ id ≠ "" := by
    intro id hid
    obtain ⟨hsome, hne⟩ := Option.filter_eq_some_iff.mp hid
    obtain ⟨theme, -, rfl⟩ := Option.map_eq_some_iff.mp hsome
    exact ⟨Text.trimmed_trimmed theme, of_decide_eq_true hne⟩
  have hlabel : ∀ {label : Option String} {t : String},
      (label.bind fun t => capLabel t.toList) = some t → InfoString.IsLabel t := by
    intro label t h
    obtain ⟨_, -, hcap⟩ := Option.bind_eq_some_iff.mp h
    exact InfoString.isLabel_of_capLabel hcap
  refine ⟨⟨?_, fun t ht => hlabel ht, fun f hf => hlabel hf, fun id hid => ?_⟩,
    fun id hid => (htheme id hid).1⟩
  · rw [language_sanitize]
    exact (isCanonical_canonicalLanguage c.language).canonicalLanguage_eq
  · obtain ⟨htrimmed, hne⟩ := htheme id hid
    rw [← Bool.not_eq_true, ← Text.trimmed_eq_empty_iff, htrimmed]
    exact hne

/-- **What is its own repair**: a valid and clean configuration without blanks
around its theme. -/
theorem sanitize_eq_self_iff : c.sanitize = c ↔
    c.isValid = true ∧ c.IsClean ∧ ∀ id ∈ c.theme, Text.trimmed id = id := by
  constructor
  · intro h
    have hclean := c.isClean_sanitize
    have hvalid := c.isValid_sanitize
    rw [h] at hclean hvalid
    exact ⟨hvalid, hclean⟩
  · rintro ⟨hvalid, hclean, htrimmed⟩
    obtain ⟨-, hstart, hpositive, hrise, hfolds⟩ := isValid_iff.mp hvalid
    have hfold : (c.fold && !c.unfold) = c.fold ∧ (c.unfold && !c.fold) = c.unfold := by
      revert hfolds
      cases c.fold <;> cases c.unfold <;> decide
    have htheme : ∀ id ∈ c.theme, Text.trimmed id = id ∧ id ≠ "" := by
      refine fun id hid => ⟨htrimmed id hid, fun hempty => ?_⟩
      have hblank := hclean.theme id hid
      rw [hempty] at hblank
      exact absurd hblank (by decide)
    rw [sanitize, hclean.language, repairedLines_of_pairwise hpositive hrise,
      Nat.max_eq_left hstart, bind_capLabel_eq_self_iff.mpr hclean.title,
      bind_capLabel_eq_self_iff.mpr hclean.filename, hfold.1, hfold.2,
      trimmedTheme_eq_self_iff.mpr htheme]

/-- **What a repair does.**  Whatever a configuration holds, its repair is valid and
needs no other repair; it marks just the positive lines that were listed, in
whatever order and however often; and a folding state is kept if it is the only
one, but neither of two. -/
theorem sanitize_laws (c : BlockConfig) :
    c.sanitize.isValid = true ∧ c.sanitize.sanitize = c.sanitize ∧
      (∀ n, c.sanitize.isHighlighted n = true ↔ 0 < n ∧ n ∈ c.highlightLines) ∧
      (c.sanitize.fold, c.sanitize.unfold) =
        if c.fold && c.unfold then (false, false) else (c.fold, c.unfold) := by
  have hvalid := c.isValid_sanitize
  refine ⟨hvalid, sanitize_eq_self_iff.mpr ⟨hvalid, c.isClean_sanitize⟩, fun n => ?_, ?_⟩
  · rw [isHighlighted_iff hvalid, mem_highlightLines_sanitize]
  · simp only [sanitize]
    cases c.fold <;> cases c.unfold <;> rfl

end BlockConfig

end CodeFence
