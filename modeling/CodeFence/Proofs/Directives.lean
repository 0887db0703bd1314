import CodeFence.Block.InfoString
import CodeFence.Proofs.MarkedLines

/-!
# What directives amount to

Every word behind the language stands for changes, and a configuration is what
the changes of all words, first to last, make of the default one.  Here each
field of it is read off the changes at once: a flag is up if some change raises
it, a marked line is one that some change marks, and any other field has the
value of the last change that gives it one.

* `latest?` — the last value that some changes give;
* `foldl_apply` — what a row of changes makes of a draft;
* `ofWord_cases` — a word is a flag, a directive with a value, or unknown;
* `ofWord_reader` — a directive with a value goes by the value alone;
* `ofLabel_cases`, `ofTheme_cases`, `ofLineNumber_cases` — what a value does;
* `filterMap_changesOf_filter` — which words can be left out;
* `config_ofWords`, `warnings_ofWords` — what is read from words.
-/

namespace CodeFence.InfoString

variable {α : Type}

/-! ## Changes -/

namespace Change

/-- The lines that a change marks. -/
def range? : Change → Option LineRange
  | mark lines => some lines
  | _ => none

/-- Whether a change switches line numbers on or off. -/
def numbers? : Change → Option Bool
  | showNumbers on => some on
  | _ => none

/-- The first number that a change asks for. -/
def start? : Change → Option Nat
  | startAt line => some line
  | _ => none

/-- The title that a change gives. -/
def title? : Change → Option String
  | title label => some label
  | _ => none

/-- The name of a file that a change gives. -/
def filename? : Change → Option String
  | filename label => some label
  | _ => none

/-- The theme that a change asks for. -/
def theme? : Change → Option String
  | theme id => some id
  | _ => none

end Change

/-- The last value that changes give, of the kind that is looked for. -/
def latest? (view : Change → Option α) (changes : List Change) : Option α :=
  (changes.filterMap view).getLast?

@[simp] theorem latest?_nil (view : Change → Option α) : latest? view [] = none := rfl

theorem latest?_append (view : Change → Option α) (changes more : List Change) :
    latest? view (changes ++ more) = (latest? view more).or (latest? view changes) := by
  simp [latest?, List.getLast?_append]

@[simp] theorem latest?_cons (view : Change → Option α) (c : Change) (rest : List Change) :
    latest? view (c :: rest) = (latest? view rest).or (view c) := by
  rw [← List.singleton_append, latest?_append]
  congr 1
  cases hview : view c <;> simp [latest?, hview]

/-- **What changes make of a draft.**  Lines are added to the marked ones, flags
stay up, and of anything else the last value counts. -/
theorem foldl_apply (d : Draft) (changes : List Change) :
    changes.foldl Draft.apply d =
      { marks := d.marks ++ changes.filterMap Change.range?
        config :=
          { d.config with
            showLineNumbers := (latest? Change.numbers? changes).getD d.config.showLineNumbers
            startLine := (latest? Change.start? changes).getD d.config.startLine
            title := (latest? Change.title? changes).or d.config.title
            filename := (latest? Change.filename? changes).or d.config.filename
            fold := d.config.fold || changes.contains .fold
            unfold := d.config.unfold || changes.contains .unfold
            exclude := d.config.exclude || changes.contains .exclude
            theme := (latest? Change.theme? changes).or d.config.theme } } := by
  induction changes generalizing d with
  | nil => simp
  | cons c rest ih =>
      rw [List.foldl_cons, ih]
      cases c <;>
        simp [Draft.apply, List.filterMap_cons, Change.range?, Change.numbers?, Change.start?,
          Change.title?, Change.filename?, Change.theme?]

/-! ## Words -/

namespace Directive

/-- The first result of a search comes from some entry, unless there is none. -/
theorem findSome?_getD_cases {β : Type} (f : α → Option β) (entries : List α) (other : β) :
    (∃ entry ∈ entries, f entry = some ((entries.findSome? f).getD other)) ∨
      (entries.findSome? f).getD other = other := by
  cases hfound : entries.findSome? f with
  | none => exact Or.inr rfl
  | some b => exact Or.inl (List.exists_of_findSome?_eq_some hfound)

/-- **What a word is**: a flag, a directive with a value, or nothing that is
known. -/
theorem ofWord_cases (word : List Char) :
    (∃ entry ∈ flags, word = entry.1.toList ∧ ofWord word = { changes := [entry.2] }) ∨
      (∃ entry ∈ readers, ∃ value, word = entry.1.toList ++ value ∧
        ofWord word = entry.2 value) ∨
      ofWord word = { skipped := some .unrecognized } := by
  unfold ofWord
  cases hflag : flags.lookup (String.ofList word) with
  | some change =>
      left
      obtain ⟨before, after, hflags, -⟩ := List.lookup_eq_some_iff.mp hflag
      refine ⟨(String.ofList word, change), ?_, (String.toList_ofList ..).symm, rfl⟩
      simp [hflags]
  | none =>
      right
      refine (findSome?_getD_cases _ _ _).imp ?_ id
      rintro ⟨entry, hentry, hsome⟩
      obtain ⟨value, hvalue, hread⟩ := Option.map_eq_some_iff.mp hsome
      exact ⟨entry, hentry, value, Text.after?_eq_some_iff.mp hvalue, hread.symm⟩

/-- A directive with a value is read by its own reader. -/
theorem ofWord_reader {lead : String} {read : List Char → Directive}
    (hreader : (lead, read) ∈ readers) (value : List Char) :
    ofWord (lead.toList ++ value) = read value := by
  have hflag : ∀ entry ∈ flags, entry.1.toList ≠ lead.toList ++ value := by
    simp only [readers, List.mem_cons, Prod.mk.injEq, List.not_mem_nil, or_false] at hreader
    simp only [flags, List.mem_cons, List.not_mem_nil, or_false]
    rcases hreader with ⟨rfl, -⟩ | ⟨rfl, -⟩ | ⟨rfl, -⟩ | ⟨rfl, -⟩ | ⟨rfl, -⟩ | ⟨rfl, -⟩ <;>
      rintro entry (rfl | rfl | rfl | rfl) <;> simp
  have hnone : flags.lookup (String.ofList (lead.toList ++ value)) = none := by
    rw [List.lookup_eq_none_iff]
    intro entry hentry
    rw [bne_iff_ne]
    intro heq
    exact hflag entry hentry (by rw [← heq, String.toList_ofList])
  rw [ofWord, hnone]
  simp only [readers, List.mem_cons, Prod.mk.injEq, List.not_mem_nil, or_false] at hreader
  rcases hreader with ⟨rfl, rfl⟩ | ⟨rfl, rfl⟩ | ⟨rfl, rfl⟩ | ⟨rfl, rfl⟩ | ⟨rfl, rfl⟩ |
    ⟨rfl, rfl⟩ <;> simp [readers, Text.after?]

/-- A label makes its own change, or is skipped because it is empty. -/
theorem ofLabel_cases (raw : List Char) (change : String → Change) :
    (∃ label, label? raw = some label ∧ ofLabel raw change = { changes := [change label] }) ∨
      label? raw = none ∧ ofLabel raw change = { skipped := some .emptyValue } := by
  unfold ofLabel
  cases label? raw with
  | none => exact Or.inr ⟨rfl, rfl⟩
  | some label => exact Or.inl ⟨label, rfl, rfl⟩

/-- A theme is asked for, or skipped because it is empty. -/
theorem ofTheme_cases (id : List Char) :
    id ≠ [] ∧ ofTheme id = { changes := [.theme (String.ofList id)] } ∨
      id = [] ∧ ofTheme id = { skipped := some .emptyValue } := by
  cases id with
  | nil => exact Or.inr ⟨rfl, rfl⟩
  | cons c rest => exact Or.inl ⟨List.cons_ne_nil c rest, rfl⟩

/-- **What `ln:` does**: it switches the numbers, or gives the first of them
too, which has 32 bits and is not zero, or does nothing; but an integer too large
for a line number is skipped and yet switches the numbers on. -/
theorem ofLineNumber_cases (value : List Char) :
    (∃ on, ofLineNumber value = { changes := [.showNumbers on] }) ∨
      (∃ line skipped, 1 ≤ line ∧ line < Text.bitBound 32 ∧
        (skipped = none ∨ ∃ n, skipped = some (.lineNumberClamped n)) ∧
        ofLineNumber value =
          { changes := [.showNumbers true, .startAt line], skipped := skipped }) ∨
      ofLineNumber value = { skipped := some (.invalidLineNumber (String.ofList value)) } ∨
      ∃ n : Int, Text.integer? 63 value = some n ∧ Text.bitBound 32 ≤ n ∧
        ofLineNumber value =
          { changes := [.showNumbers true]
            skipped := some (.invalidLineNumber (String.ofList value)) } := by
  have hone : 1 < Text.bitBound 32 := by decide
  unfold ofLineNumber
  split
  · exact Or.inl ⟨true, rfl⟩
  split
  · exact Or.inl ⟨false, rfl⟩
  cases hvalue : Text.integer? 63 value with
  | none => exact Or.inr (Or.inr (Or.inl rfl))
  | some n =>
      by_cases hbelow : n < 1
      · right; left
        exact ⟨1, some (.lineNumberClamped n), Nat.le_refl 1, hone, Or.inr ⟨n, rfl⟩,
          if_pos hbelow⟩
      · by_cases hbound : n.toNat < Text.bitBound 32
        · right; left
          exact ⟨n.toNat, none, by omega, hbound, Or.inl rfl, by simp [hbelow, hbound]⟩
        · right; right; right
          exact ⟨n, rfl, by omega, by simp [hbelow, hbound]⟩

end Directive

/-- All changes that words stand for, first to last. -/
def changesOf (words : List (List Char)) : List Change :=
  words.flatMap fun word => (Directive.ofWord word).changes

theorem mem_changesOf {c : Change} {words : List (List Char)} :
    c ∈ changesOf words ↔ ∃ word ∈ words, c ∈ (Directive.ofWord word).changes :=
  List.mem_flatMap

theorem changesOf_append (words more : List (List Char)) :
    changesOf (words ++ more) = changesOf words ++ changesOf more :=
  List.flatMap_append

@[simp] theorem changesOf_cons (word : List Char) (words : List (List Char)) :
    changesOf (word :: words) = (Directive.ofWord word).changes ++ changesOf words :=
  List.flatMap_cons

/-- Words can be left out, if their changes are not of the kind that is looked for. -/
theorem filterMap_changesOf_filter {view : Change → Option α} {keep : List Char → Bool}
    (hout : ∀ word, keep word = false → ∀ c ∈ (Directive.ofWord word).changes, view c = none)
    (words : List (List Char)) :
    (changesOf (words.filter keep)).filterMap view = (changesOf words).filterMap view := by
  induction words with
  | nil => rfl
  | cons word rest ih =>
      cases hkeep : keep word with
      | true =>
          rw [List.filter_cons_of_pos hkeep, changesOf_cons, changesOf_cons,
            List.filterMap_append, List.filterMap_append, ih]
      | false =>
          have hnone : (Directive.ofWord word).changes.filterMap view = [] :=
            List.filterMap_eq_nil_iff.mpr (hout word hkeep)
          rw [List.filter_cons_of_neg (by simp [hkeep]), changesOf_cons, List.filterMap_append,
            hnone, ih, List.nil_append]

/-- The changes of all words are made one after the other. -/
theorem config_ofWords_eq_finish (language : List Char) (words : List (List Char)) :
    (ofWords (language :: words)).config =
      ((changesOf words).foldl Draft.apply
        { config := { language := canonicalLanguage (String.ofList language) } }).finish := by
  have hchanges : (words.map Directive.ofWord).flatMap Directive.changes = changesOf words := by
    rw [List.flatMap_map, changesOf]
  rw [ofWords]
  dsimp only
  rw [hchanges]

/-- **What is read from words**, field by field. -/
theorem config_ofWords (language : List Char) (words : List (List Char)) :
    (ofWords (language :: words)).config =
      { language := canonicalLanguage (String.ofList language)
        highlightLines := LineRange.union ((changesOf words).filterMap Change.range?)
        showLineNumbers := (latest? Change.numbers? (changesOf words)).getD false
        startLine := (latest? Change.start? (changesOf words)).getD 1
        title := latest? Change.title? (changesOf words)
        filename := latest? Change.filename? (changesOf words)
        fold := (changesOf words).contains .fold
        unfold := (changesOf words).contains .unfold
        exclude := (changesOf words).contains .exclude
        theme := latest? Change.theme? (changesOf words) } := by
  simp [config_ofWords_eq_finish, foldl_apply, Draft.finish]

/-- The warnings say of each word, in turn, why it was skipped. -/
theorem warnings_ofWords (language : List Char) (words : List (List Char)) :
    (ofWords (language :: words)).warnings =
      words.filterMap fun word =>
        (Directive.ofWord word).skipped.map fun reason => ⟨String.ofList word, reason⟩ := by
  have hzip : words.zip (words.map Directive.ofWord) =
      words.map fun word => (word, Directive.ofWord word) := by
    simpa using List.zip_map' (f := id) (g := Directive.ofWord) (l := words)
  rw [ofWords]
  dsimp only
  rw [hzip, List.filterMap_map]
  rfl

end CodeFence.InfoString
