import CodeFence.Proofs.TextCuts
import CodeFence.Proofs.Directives
import CodeFence.Proofs.SpacedWords

/-!
# Writing a label into an info string

Two readers go over a label: the one that cuts the words, which looks for the
end of the quoted span, and the one that takes the quotes off and resolves the
backslashes.  A backslash before each quote of the span's kind and before each
backslash satisfies both, so that any text at all can be given as a label.

* `escapeLabel` — the text of a label between quotes;
* `quoteAfter_escapeLabel` — it does not close the span that it stands in;
* `unescapeLabel_escapeLabel`, `label?_quoted` — it reads as the label;
* `parse_layOut_label` — the directive sets its field to the label and leaves all else
  as it is without it.
-/

namespace CodeFence.InfoString

variable {q : Char} {label : List Char}

/-- A text as it is written between quotes: every backslash and every quote of
the same kind has a backslash in front. -/
def escapeLabel (q : Char) (label : List Char) : List Char :=
  label.flatMap fun c => if c = '\\' ∨ c = q then ['\\', c] else [c]

theorem escapeLabel_cons (q c : Char) (rest : List Char) :
    escapeLabel q (c :: rest) =
      (if c = '\\' ∨ c = q then ['\\', c] else [c]) ++ escapeLabel q rest :=
  List.flatMap_cons

/-- **The span stays open** until the quote behind the label. -/
theorem quoteAfter_escapeLabel (q : Char) (label : List Char) :
    quoteAfter (some q) (escapeLabel q label) = some (some q) := by
  induction label with
  | nil => rfl
  | cons c rest ih =>
      rw [escapeLabel_cons]
      by_cases hc : c = '\\' ∨ c = q
      · rw [if_pos hc]
        exact ih
      · obtain ⟨hbackslash, hquote⟩ := not_or.mp hc
        rw [if_neg hc]
        simpa [quoteAfter, hbackslash, hquote] using ih

theorem isQuote_iff : isQuote q = true ↔ q = '"' ∨ q = '\'' := by
  simp [isQuote]

/-- **Backslashes are resolved** to what they were put before. -/
theorem unescapeLabel_escapeLabel (hq : isQuote q = true) (label : List Char) :
    unescapeLabel (escapeLabel q label) = label := by
  induction label with
  | nil => rfl
  | cons c rest ih =>
      rw [escapeLabel_cons]
      by_cases hc : c = '\\' ∨ c = q
      · rw [if_pos hc]
        rcases hc with rfl | rfl
        · simp [unescapeLabel, ih]
        · rcases isQuote_iff.mp hq with rfl | rfl <;> simp [unescapeLabel, ih]
      · rw [if_neg hc, List.singleton_append, unescapeLabel, ih]
        all_goals
          intros
          simp_all

/-- One pair of quotes is taken off, whatever stands between them. -/
theorem dropQuotes_quoted (hq : isQuote q = true) (inner : List Char) :
    dropQuotes (q :: inner ++ [q]) = inner := by
  have hinner : Text.before? [q] (inner ++ [q]) = some inner :=
    Text.before?_eq_some_iff.mpr rfl
  rcases isQuote_iff.mp hq with rfl | rfl <;> simp [dropQuotes, Text.after?, hinner]

/-- **A label between quotes** is read as its first characters. -/
theorem label?_quoted (hq : isQuote q = true) (hlabel : label ≠ []) :
    label? (q :: escapeLabel q label ++ [q]) =
      some (String.ofList (label.take maxLabelLength)) := by
  rw [label?, dropQuotes_quoted hq, unescapeLabel_escapeLabel hq]
  exact capLabel_eq_some_iff.mpr ⟨hlabel, rfl⟩

/-! ## Directives with a label -/

/-- A directive whose value is a label. -/
inductive LabelDirective where
  | title
  | file
  | filename
  deriving DecidableEq

namespace LabelDirective

/-- How the directive begins. -/
def lead : LabelDirective → String
  | title => "title:"
  | file => "file:"
  | filename => "filename:"

/-- The change that the directive makes. -/
def change : LabelDirective → String → Change
  | title | file => .title
  | filename => .filename

/-- The configuration with the field of the directive set. -/
def set (d : LabelDirective) (label : String) (config : BlockConfig) : BlockConfig :=
  match d with
  | title | file => { config with title := some label }
  | filename => { config with filename := some label }

/-- A word that sets the field of the directive. -/
def IsSetBy (d : LabelDirective) (word : List Char) : Prop :=
  ∃ label, d.change label ∈ (Directive.ofWord word).changes

/-- The directive with a label between quotes. -/
def chars (d : LabelDirective) (q : Char) (label : String) : List Char :=
  d.lead.toList ++ (q :: escapeLabel q label.toList ++ [q])

/-- A directive with a label between quotes is a complete word. -/
def word (d : LabelDirective) {q : Char} (hq : isQuote q = true) (label : String) :
    CompleteWord where
  chars := d.chars q label
  ne_nil := by simp [chars]
  complete := by
    have hlead : quoteAfter none d.lead.toList = some none := by cases d <;> decide
    have hopen : quoteAfter none [q] = some (some q) := by
      rcases isQuote_iff.mp hq with rfl | rfl <;> decide
    have hclose : quoteAfter (some q) [q] = some none := by
      rcases isQuote_iff.mp hq with rfl | rfl <;> decide
    rw [chars, quoteAfter_append hlead, List.cons_append, ← List.singleton_append,
      quoteAfter_append hopen, quoteAfter_append (quoteAfter_escapeLabel q _), hclose]

variable (d : LabelDirective)

/-- What a directive with a label between quotes does. -/
theorem ofWord_chars (hq : isQuote q = true) {label : String} (hlabel : label ≠ "") :
    Directive.ofWord (d.chars q label) =
      { changes := [d.change (String.ofList (label.toList.take maxLabelLength))] } := by
  have hreader : (d.lead, fun raw => Directive.ofLabel raw d.change) ∈ Directive.readers := by
    cases d <;> simp [Directive.readers, lead, change]
  have hchars : label.toList ≠ [] := mt String.toList_eq_nil_iff.mp hlabel
  rw [chars, Directive.ofWord_reader hreader, Directive.ofLabel, label?_quoted hq hchars]

end LabelDirective

/-! ## One directive among others -/

/-- No change to the field of the directive is among the changes. -/
def LabelDirective.Unset (d : LabelDirective) (changes : List Change) : Prop :=
  ∀ label, d.change label ∉ changes

variable (d : LabelDirective)

/-- A label that no later change replaces may as well be given at the end. -/
theorem foldl_apply_change {changes : List Change} (h : d.Unset changes) (draft : Draft)
    (label : String) :
    changes.foldl Draft.apply (draft.apply (d.change label)) =
      (changes.foldl Draft.apply draft).apply (d.change label) := by
  have hsilent : ∀ view : Change → Option String,
      (∀ c a, view c = some a → ∃ l, c = d.change l) → latest? view changes = none := by
    intro view hview
    rw [latest?, List.getLast?_eq_none_iff, List.filterMap_eq_nil_iff]
    intro c hc
    cases hsome : view c with
    | none => rfl
    | some a =>
        obtain ⟨l, rfl⟩ := hview c a hsome
        exact absurd hc (h l)
  rw [foldl_apply, foldl_apply]
  cases d with
  | title | file =>
      rw [hsilent Change.title? fun c a hc => ?_]
      · rfl
      · cases c <;> cases hc
        exact ⟨_, rfl⟩
  | filename =>
      rw [hsilent Change.filename? fun c a hc => ?_]
      · rfl
      · cases c <;> cases hc
        exact ⟨_, rfl⟩

theorem finish_apply_change (draft : Draft) (label : String) :
    (draft.apply (d.change label)).finish = d.set label draft.finish := by
  cases d <;> rfl

/-- **The directive among other words** sets its field, unless a word behind it
sets that again, and nothing else is changed by it. -/
theorem ofWords_insert_label (hq : isQuote q = true) {label : String} (hlabel : label ≠ "")
    (language : List Char) (before : List (List Char)) {after : List (List Char)}
    (hafter : ∀ w ∈ after, ¬ d.IsSetBy w) :
    let without := ofWords (language :: (before ++ after))
    ofWords (language :: (before ++ d.chars q label :: after)) =
      { config := d.set (String.ofList (label.toList.take maxLabelLength)) without.config
        warnings := without.warnings } := by
  intro without
  have hword := d.ofWord_chars hq hlabel
  have hunset : d.Unset (changesOf after) := by
    intro l hl
    obtain ⟨w, hw, hmem⟩ := mem_changesOf.mp hl
    exact hafter w hw ⟨l, hmem⟩
  have hconfig : (ofWords (language :: (before ++ d.chars q label :: after))).config =
      d.set (String.ofList (label.toList.take maxLabelLength)) without.config := by
    rw [config_ofWords_eq_finish, changesOf_append, changesOf_cons, hword, List.foldl_append,
      List.singleton_append, List.foldl_cons, foldl_apply_change d hunset, finish_apply_change,
      ← List.foldl_append, ← changesOf_append, ← config_ofWords_eq_finish]
  have hwarnings : (ofWords (language :: (before ++ d.chars q label :: after))).warnings =
      without.warnings := by
    simp only [without, warnings_ofWords, List.filterMap_append]
    rw [List.filterMap_cons_none (by rw [hword]; rfl)]
  rw [← hconfig, ← hwarnings]

/-- **Every label can be written.**  Take any text that is not empty, either
quote, a directive for it, and any complete words before and behind, of which
those behind do not set the same field.  Then the directive with the text
between quotes sets the field to the first 200 characters of the text, and the
rest of the configuration and the warnings are those of the info string without
the directive. -/
theorem parse_layOut_label (hq : isQuote q = true) {label : String} (hlabel : label ≠ "")
    (lead trail : Blanks) (language : CompleteWord) (before after : List SpacedWord)
    (gap : Blanks) (hgap : gap.chars ≠ []) (hafter : ∀ w ∈ after, ¬ d.IsSetBy w.word.chars) :
    let without := parse (layOut lead language (before ++ after) trail)
    parse (layOut lead language (before ++ ⟨gap, hgap, d.word hq label⟩ :: after) trail) =
      { config := d.set (String.ofList (label.toList.take 200)) without.config
        warnings := without.warnings } := by
  have hbehind : ∀ w ∈ after.map (·.word.chars), ¬ d.IsSetBy w := by
    intro w hw
    obtain ⟨spaced, hspaced, rfl⟩ := List.mem_map.mp hw
    exact hafter spaced hspaced
  have hwords := ofWords_insert_label d hq hlabel language.chars (before.map (·.word.chars)) hbehind
  rw [← List.map_append] at hwords
  simp only [parse, wordChars_layOut, List.map_append, List.map_cons]
  rw [← List.map_append]
  exact hwords

/-- A label with a blank, quotes, and a backslash before an `n`, between two
other directives. -/
theorem parse_layOut_label_newline :
    let label := "a\\nb \"c\""
    let without := parse "rust hl:1 fold"
    isQuote '"' = true ∧ label ≠ "" ∧
      (∀ w ∈ ["fold".toList], ¬ LabelDirective.title.IsSetBy w) ∧
      parse "rust hl:1 title:\"a\\\\nb \\\"c\\\"\" fold" =
        { config := { without.config with title := some label }
          warnings := without.warnings } := by
  intro label without
  have hfold : (Directive.ofWord "fold".toList).changes = [.fold] := by decide
  have hafter : ∀ w ∈ ["fold".toList], ¬ LabelDirective.title.IsSetBy w := by
    rintro w hw ⟨l, hl⟩
    rw [List.mem_singleton.mp hw, hfold] at hl
    cases List.mem_singleton.mp hl
  let none := Blanks.none
  let space := Blanks.space
  let language : CompleteWord := ⟨"rust".toList, by decide, by decide⟩
  let lines : SpacedWord := ⟨space, by decide, "hl:1".toList, by decide, by decide⟩
  let fold : SpacedWord := ⟨space, by decide, "fold".toList, by decide, by decide⟩
  have hquote : isQuote '"' = true := by decide
  have hlabel : label ≠ "" := by decide
  have hwithout : layOut none language [lines, fold] none = "rust hl:1 fold" := by
    decide +kernel
  let title := LabelDirective.title.word (show isQuote '"' = true by decide) label
  have htext : layOut none language [lines, ⟨space, by decide, title⟩, fold] none =
      "rust hl:1 title:\"a\\\\nb \\\"c\\\"\" fold" := by
    decide +kernel
  have hshort : String.ofList (label.toList.take 200) = label := by decide +kernel
  have h := parse_layOut_label .title hquote hlabel none none language [lines] [fold] space
    (by decide) (by simpa [fold] using hafter)
  simp only [List.singleton_append] at h
  rw [htext, hwithout, hshort] at h
  exact ⟨hquote, hlabel, hafter, h⟩

end CodeFence.InfoString
