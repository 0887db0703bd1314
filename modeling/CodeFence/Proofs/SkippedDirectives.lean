import CodeFence.Proofs.Directives
import Mathlib.Data.List.TakeWhile

/-!
# Directives that are refused

A warning may say that a directive was not applied at all: its value is missing
or no line number, or nobody knows it.  Such a directive should be as good as
absent.  It is, but for one case: an integer that is too large for a line number
has switched line numbers on before it is found out.

* `refuses_ofWords` — a word is refused for what it is, whatever stands around it;
* `changes_of_isRefused` — a refused word makes no change, or is overlarge;
* `config_unrefused` — without refused words, only the switch can differ;
* `latest?_numbers_of_endsOverlarge`, `latest?_numbers_unrefused` — how refused
  words move the switch;
* `config_kept` — when a configuration is the same without them.
-/

namespace CodeFence.InfoString

variable {α : Type} {c : Change} {word : List Char} {words : List (List Char)}

/-- The reason says that nothing of a directive was applied. -/
def SkipReason.isRefusal : SkipReason → Bool
  | invalidLineNumber _ => true
  | emptyValue => true
  | unrecognized => true
  | _ => false

/-- Some warning says that a word was not applied at all. -/
def Parsed.refuses (r : Parsed) (word : List Char) : Bool :=
  r.warnings.any fun w => w.directive == String.ofList word && w.reason.isRefusal

/-- The words that are left when the refused ones are deleted. -/
def Parsed.kept (r : Parsed) (words : List (List Char)) : List (List Char) :=
  words.filter fun word => !r.refuses word

/-- A directive `ln:` with an integer of 64 bits that is too large for a line
number. -/
def IsOverlarge (word : List Char) : Prop :=
  ∃ (value : List Char) (n : Int), word = "ln:".toList ++ value ∧
    Text.integer? 63 value = some n ∧ Text.bitBound 32 ≤ n

/-- A word that does not switch line numbers. -/
def IsQuiet (word : List Char) : Prop :=
  ∀ on, Change.showNumbers on ∉ (Directive.ofWord word).changes

/-- An overlarge word is the last one that switches line numbers. -/
def EndsOverlarge (words : List (List Char)) : Prop :=
  ∃ before word after, words = before ++ word :: after ∧ IsOverlarge word ∧
    ∀ w ∈ after, IsQuiet w

/-! ## Refused words -/

/-- The word would be refused, wherever it stands. -/
def isRefused (word : List Char) : Bool :=
  (Directive.ofWord word).skipped.any SkipReason.isRefusal

/-- A word is refused for what it is, whatever stands around it. -/
theorem refuses_ofWords (language : List Char) (hword : word ∈ words) :
    (ofWords (language :: words)).refuses word = isRefused word := by
  rw [Parsed.refuses, warnings_ofWords, isRefused, Bool.eq_iff_iff, List.any_eq_true]
  constructor
  · rintro ⟨w, hw, hsame⟩
    obtain ⟨word', -, hw⟩ := List.mem_filterMap.mp hw
    obtain ⟨reason, hskipped, rfl⟩ := Option.map_eq_some_iff.mp hw
    rw [Bool.and_eq_true, beq_iff_eq, String.ofList_inj] at hsame
    obtain ⟨rfl, hrefusal⟩ := hsame
    rw [hskipped]
    exact hrefusal
  · intro hrefused
    obtain ⟨reason, hskipped, hrefusal⟩ := (Option.any_eq_true ..).mp hrefused
    refine ⟨⟨String.ofList word, reason⟩, List.mem_filterMap.mpr ⟨word, hword, ?_⟩, ?_⟩
    · rw [hskipped]
      rfl
    · simp [hrefusal]

theorem trim_of_blank {cs : List Char} (h : cs.all Text.isBlank = true) : Text.trim cs = [] := by
  have hstart : Text.trimStart cs = [] := List.dropWhile_eq_nil_iff.mpr (List.all_eq_true.mp h)
  rw [Text.trim, hstart]
  rfl

/-- A blank specification has no fragments; a comma is not blank. -/
theorem lineFragments_of_blank {spec : List Char} (h : spec.all Text.isBlank = true) :
    lineFragments spec = [] := by
  have hcomma : ',' ∉ spec := by
    intro hmem
    have hblank := List.all_eq_true.mp h ',' hmem
    exact absurd hblank (by decide)
  rw [lineFragments, Text.splitAt_of_not_mem hcomma, List.map_singleton, trim_of_blank h]
  rfl

/-- Lines that are refused as a whole are blank. -/
theorem changes_ofLineSpec_of_refusal {spec : List Char}
    (h : (Directive.ofLineSpec spec).skipped.any SkipReason.isRefusal = true) :
    (Directive.ofLineSpec spec).changes = [] := by
  unfold Directive.ofLineSpec at h ⊢
  by_cases hblank : spec.all Text.isBlank = true
  · simp [lineFragments_of_blank hblank]
  · simp only [hblank] at h
    split at h <;> simp [SkipReason.isRefusal] at h

/-- A label that is refused makes no change. -/
theorem changes_ofLabel_of_refusal {raw : List Char} {change : String → Change}
    (h : (Directive.ofLabel raw change).skipped.any SkipReason.isRefusal = true) :
    (Directive.ofLabel raw change).changes = [] := by
  rcases Directive.ofLabel_cases raw change with ⟨label, -, hlabel⟩ | ⟨-, hlabel⟩
  · rw [hlabel] at h
    exact absurd h Bool.false_ne_true
  · rw [hlabel]

theorem changes_ofTheme_of_refusal {id : List Char}
    (h : (Directive.ofTheme id).skipped.any SkipReason.isRefusal = true) :
    (Directive.ofTheme id).changes = [] := by
  rcases Directive.ofTheme_cases id with ⟨-, hid⟩ | ⟨-, hid⟩
  · rw [hid] at h
    exact absurd h Bool.false_ne_true
  · rw [hid]

/-- A number that is refused makes no change, unless it is a large integer. -/
theorem changes_ofLineNumber_of_refusal {value : List Char}
    (h : (Directive.ofLineNumber value).skipped.any SkipReason.isRefusal = true) :
    (Directive.ofLineNumber value).changes = [] ∨
      ∃ n : Int, Text.integer? 63 value = some n ∧ Text.bitBound 32 ≤ n ∧
        (Directive.ofLineNumber value).changes = [.showNumbers true] := by
  rcases Directive.ofLineNumber_cases value with ⟨on, hvalue⟩ |
    ⟨line, skipped, -, -, hskipped, hvalue⟩ | hvalue | ⟨n, hn, hlarge, hvalue⟩
  · rw [hvalue] at h
    exact absurd h Bool.false_ne_true
  · rw [hvalue] at h
    rcases hskipped with rfl | ⟨n, rfl⟩ <;> exact absurd h Bool.false_ne_true
  · exact Or.inl (by rw [hvalue])
  · exact Or.inr ⟨n, hn, hlarge, by rw [hvalue]⟩

/-- **What a refused word does**: nothing, or it is overlarge and switches line
numbers on. -/
theorem changes_of_isRefused (h : isRefused word = true) :
    (Directive.ofWord word).changes = [] ∨
      IsOverlarge word ∧ (Directive.ofWord word).changes = [.showNumbers true] := by
  rw [isRefused] at h
  rcases Directive.ofWord_cases word with ⟨entry, -, -, hof⟩ |
    ⟨entry, hentry, value, hword, hof⟩ | hof
  · rw [hof] at h
    exact absurd h Bool.false_ne_true
  · rw [hof] at h ⊢
    simp only [Directive.readers, List.mem_cons, List.not_mem_nil, or_false] at hentry
    rcases hentry with rfl | rfl | rfl | rfl | rfl | rfl
    · exact Or.inl (changes_ofLineSpec_of_refusal h)
    · rcases changes_ofLineNumber_of_refusal h with hnone | ⟨n, hn, hlarge, hon⟩
      · exact Or.inl hnone
      · exact Or.inr ⟨⟨value, n, hword, hn, hlarge⟩, hon⟩
    · exact Or.inl (changes_ofLabel_of_refusal h)
    · exact Or.inl (changes_ofLabel_of_refusal h)
    · exact Or.inl (changes_ofLabel_of_refusal h)
    · exact Or.inl (changes_ofTheme_of_refusal h)
  · rw [hof]
    exact Or.inl rfl

/-- An overlarge word switches line numbers on. -/
theorem changes_of_isOverlarge (h : IsOverlarge word) :
    (Directive.ofWord word).changes = [.showNumbers true] := by
  obtain ⟨value, n, rfl, hn, hlarge⟩ := h
  have htrue : value ≠ "true".toList := by
    rintro rfl
    have hnone : Text.integer? 63 "true".toList = none := by decide
    rw [hnone] at hn
    cases hn
  have hfalse : value ≠ "false".toList := by
    rintro rfl
    have hnone : Text.integer? 63 "false".toList = none := by decide
    rw [hnone] at hn
    cases hn
  have hbound : ¬ n.toNat < Text.bitBound 32 := by omega
  have hbelow : ¬ n < 1 := by
    have hpos : 0 < Text.bitBound 32 := by decide
    omega
  have hreader : ("ln:", Directive.ofLineNumber) ∈ Directive.readers := by
    simp [Directive.readers]
  rw [Directive.ofWord_reader hreader, Directive.ofLineNumber, if_neg htrue, if_neg hfalse, hn]
  simp only [if_neg hbelow, if_neg hbound]

/-! ## The words that are left -/

/-- The words that are not refused. -/
def unrefused (words : List (List Char)) : List (List Char) :=
  words.filter fun word => !isRefused word

theorem kept_ofWords (language : List Char) (words : List (List Char)) :
    (ofWords (language :: words)).kept words = unrefused words := by
  refine List.filter_congr fun word hword => ?_
  rw [refuses_ofWords language hword]

theorem eq_showNumbers_of_isRefused (h : isRefused word = true)
    (hc : c ∈ (Directive.ofWord word).changes) : c = .showNumbers true := by
  rcases changes_of_isRefused h with hnone | ⟨-, hon⟩
  · rw [hnone] at hc
    exact absurd hc List.not_mem_nil
  · rw [hon] at hc
    exact List.mem_singleton.mp hc

theorem filterMap_changesOf_unrefused {view : Change → Option α}
    (hview : view (.showNumbers true) = none) (words : List (List Char)) :
    (changesOf (unrefused words)).filterMap view = (changesOf words).filterMap view := by
  refine filterMap_changesOf_filter (fun word hrefused c hc => ?_) words
  rw [Bool.not_eq_false'] at hrefused
  rw [eq_showNumbers_of_isRefused hrefused hc, hview]

theorem contains_changesOf_unrefused (hc : c ≠ .showNumbers true) (words : List (List Char)) :
    (changesOf (unrefused words)).contains c = (changesOf words).contains c := by
  rw [Bool.eq_iff_iff, List.contains_iff_mem, List.contains_iff_mem, mem_changesOf, mem_changesOf]
  constructor
  · rintro ⟨word, hword, hmem⟩
    exact ⟨word, (List.mem_filter.mp hword).1, hmem⟩
  · rintro ⟨word, hword, hmem⟩
    have hkeep : isRefused word = false :=
      Bool.eq_false_iff.mpr fun h => hc (eq_showNumbers_of_isRefused h hmem)
    exact ⟨word, List.mem_filter.mpr ⟨hword, by rw [hkeep]; rfl⟩, hmem⟩

/-- **Refused words do nothing**, but for the switch of the line numbers. -/
theorem config_unrefused (language : List Char) (words : List (List Char)) :
    (ofWords (language :: unrefused words)).config =
      { (ofWords (language :: words)).config with
        showLineNumbers := (ofWords (language :: unrefused words)).config.showLineNumbers } := by
  have hmarks : (changesOf (unrefused words)).filterMap Change.range? =
      (changesOf words).filterMap Change.range? := filterMap_changesOf_unrefused rfl words
  have hstart : latest? Change.start? (changesOf (unrefused words)) =
      latest? Change.start? (changesOf words) :=
    congrArg List.getLast? (filterMap_changesOf_unrefused rfl words)
  have htitle : latest? Change.title? (changesOf (unrefused words)) =
      latest? Change.title? (changesOf words) :=
    congrArg List.getLast? (filterMap_changesOf_unrefused rfl words)
  have hfilename : latest? Change.filename? (changesOf (unrefused words)) =
      latest? Change.filename? (changesOf words) :=
    congrArg List.getLast? (filterMap_changesOf_unrefused rfl words)
  have htheme : latest? Change.theme? (changesOf (unrefused words)) =
      latest? Change.theme? (changesOf words) :=
    congrArg List.getLast? (filterMap_changesOf_unrefused rfl words)
  have hflag : ∀ c, c ≠ .showNumbers true →
      (changesOf (unrefused words)).contains c = (changesOf words).contains c := fun c hc =>
    contains_changesOf_unrefused hc words
  simp only [config_ofWords, hmarks, hstart, htitle, hfilename, htheme,
    hflag .fold (by decide), hflag .unfold (by decide), hflag .exclude (by decide)]

/-! ## Who has the last say on line numbers -/

theorem latest?_numbers_eq_none_iff :
    latest? Change.numbers? (changesOf words) = none ↔ ∀ word ∈ words, IsQuiet word := by
  rw [latest?, List.getLast?_eq_none_iff, List.filterMap_eq_nil_iff]
  constructor
  · intro hnone word hword on hmem
    exact Option.some_ne_none on (hnone _ (mem_changesOf.mpr ⟨word, hword, hmem⟩))
  · intro hquiet c hc
    obtain ⟨word, hword, hmem⟩ := mem_changesOf.mp hc
    cases c with
    | showNumbers on => exact absurd hmem (hquiet word hword on)
    | _ => rfl

/-- If an overlarge word has the last say, line numbers are on. -/
theorem latest?_numbers_of_endsOverlarge (h : EndsOverlarge words) :
    latest? Change.numbers? (changesOf words) = some true := by
  obtain ⟨before, word, after, rfl, hlarge, hafter⟩ := h
  rw [changesOf_append, changesOf_cons, latest?_append, latest?_append,
    latest?_numbers_eq_none_iff.mpr hafter, changes_of_isOverlarge hlarge]
  rfl

/-- If none has, refused words do not switch line numbers: an overlarge one is
followed by a word that switches them again. -/
theorem latest?_numbers_unrefused (h : ¬ EndsOverlarge words) :
    latest? Change.numbers? (changesOf (unrefused words)) =
      latest? Change.numbers? (changesOf words) := by
  induction words with
  | nil => rfl
  | cons word rest ih =>
      have hrest : ¬ EndsOverlarge rest := by
        rintro ⟨before, large, after, rfl, hlarge, hafter⟩
        exact h ⟨word :: before, large, after, rfl, hlarge, hafter⟩
      cases hrefused : isRefused word with
      | false =>
          have hkeep : unrefused (word :: rest) = word :: unrefused rest :=
            List.filter_cons_of_pos (by rw [hrefused]; rfl)
          rw [hkeep, changesOf_cons, changesOf_cons, latest?_append, latest?_append, ih hrest]
      | true =>
          have hdrop : unrefused (word :: rest) = unrefused rest :=
            List.filter_cons_of_neg (by rw [hrefused]; exact Bool.false_ne_true)
          rw [hdrop, ih hrest, changesOf_cons, latest?_append]
          rcases changes_of_isRefused hrefused with hnone | ⟨hlarge, -⟩
          · rw [hnone, latest?_nil, Option.or_none]
          · have hloud : latest? Change.numbers? (changesOf rest) ≠ none := fun hnone =>
              h ⟨[], word, rest, rfl, hlarge, latest?_numbers_eq_none_iff.mp hnone⟩
            rw [Option.or_of_isSome (Option.isSome_iff_ne_none.mpr hloud)]

/-- **What is left when refused words are deleted** reads the same, unless an
overlarge word has the last say on line numbers and the words that are left do
not switch them on. -/
theorem config_kept (language : List Char) (words : List (List Char)) :
    let r := ofWords (language :: words)
    let left := ofWords (language :: r.kept words)
    left.config = { r.config with showLineNumbers := left.config.showLineNumbers } ∧
      (left.config = r.config ↔ (EndsOverlarge words → left.config.showLineNumbers = true)) := by
  intro r left
  have hleft : left = ofWords (language :: unrefused words) := by
    simp only [left, r, kept_ofWords]
  have hfields : left.config = { r.config with showLineNumbers := left.config.showLineNumbers } := by
    rw [hleft]
    exact config_unrefused language words
  refine ⟨hfields, fun hsame hlarge => ?_, fun hon => ?_⟩
  · rw [hsame]
    simp only [r, config_ofWords, latest?_numbers_of_endsOverlarge hlarge, Option.getD_some]
  · have hnumbers : left.config.showLineNumbers = r.config.showLineNumbers := by
      by_cases hlarge : EndsOverlarge words
      · rw [hon hlarge]
        simp only [r, config_ofWords, latest?_numbers_of_endsOverlarge hlarge, Option.getD_some]
      · rw [hleft]
        simp only [r, config_ofWords, latest?_numbers_unrefused hlarge]
    rw [hfields, hnumbers]

/-- `ln:4294967296` is skipped as no line number, and yet it shows line numbers,
which are off without it. -/
theorem config_kept_overlarge_ne :
    let r := parse "rust ln:4294967296"
    let words := ["ln:4294967296".toList]
    wordChars "rust ln:4294967296".toList = "rust".toList :: words ∧
      r.warnings = [⟨"ln:4294967296", .invalidLineNumber "4294967296"⟩] ∧
      r.config.showLineNumbers = true ∧
      r.kept words = [] ∧
      (ofWords ("rust".toList :: r.kept words)).config.showLineNumbers = false := by
  decide +kernel

end CodeFence.InfoString
