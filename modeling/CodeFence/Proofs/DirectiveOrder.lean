import CodeFence.Proofs.Directives

/-!
# Directives in another order

Most fields of a configuration are set by one group of directives: the line
numbers by `ln`, the title by `title:` and `file:`, the file name by `filename:`
and the theme by `theme:`.  Within a group the last word counts.  Marked lines
and flags only add up, so for them it does not matter in which order the words
come, nor how often.

* `Topic.has_of_mem_changes` — what sets a field is a word of its group;
* `latest?_changesOf_congr` — what a group sets, its own words decide;
* `config_congr` — the same words, in the same order within each group, ask for
  the same configuration;
* `ofWords_rearranged` — so words may be moved, and some repeated.
-/

namespace CodeFence.InfoString

variable {α : Type} {c : Change} {word : List Char} {words words' : List (List Char)}

/-- What one group of directives sets, and no other directive does. -/
inductive Topic where
  | numbers
  | title
  | filename
  | theme
  deriving DecidableEq

/-- Whether a word belongs to the group. -/
def Topic.has : Topic → List Char → Bool
  | numbers, word => word == "ln".toList || Text.startsWith "ln:".toList word
  | title, word => Text.startsWith "title:".toList word || Text.startsWith "file:".toList word
  | filename, word => Text.startsWith "filename:".toList word
  | theme, word => Text.startsWith "theme:".toList word

/-- Whether a word only adds to what others do: a directive `hl:`, or one of the
flags `fold`, `unfold` and `exclude`. -/
def onlyAdds (word : List Char) : Bool :=
  Text.startsWith "hl:".toList word || word == "fold".toList || word == "unfold".toList ||
    word == "exclude".toList

theorem has_of_onlyAdds (t : Topic) (h : onlyAdds word = true) : t.has word = false := by
  simp only [onlyAdds, Bool.or_eq_true, beq_iff_eq, Text.startsWith, Option.isSome_iff_exists,
    Text.after?_eq_some_iff] at h
  rcases h with ((⟨rest, rfl⟩ | rfl) | rfl) | rfl <;> cases t <;>
    simp [Topic.has, Text.startsWith, Text.after?]

/-! ## What a group sets -/

/-- The group that makes such a change; marks and flags belong to none. -/
def Change.topic? : Change → Option Topic
  | showNumbers _ => some .numbers
  | startAt _ => some .numbers
  | title _ => some .title
  | filename _ => some .filename
  | theme _ => some .theme
  | _ => none

theorem topic?_of_mem_ofLineSpec {spec : List Char}
    (hc : c ∈ (Directive.ofLineSpec spec).changes) : c.topic? = none := by
  obtain ⟨lines, -, rfl⟩ := List.mem_map.mp hc
  rfl

theorem topic?_of_mem_ofLineNumber {value : List Char}
    (hc : c ∈ (Directive.ofLineNumber value).changes) : c.topic? = some .numbers := by
  rcases Directive.ofLineNumber_cases value with ⟨on, h⟩ | ⟨line, skipped, -, -, -, h⟩ | h |
    ⟨n, -, -, h⟩
  · rw [h] at hc
    rw [List.mem_singleton.mp hc, Change.topic?]
  · rw [h] at hc
    simp only [List.mem_cons, List.not_mem_nil, or_false] at hc
    rcases hc with rfl | rfl <;> rfl
  · rw [h] at hc
    exact absurd hc List.not_mem_nil
  · rw [h] at hc
    rw [List.mem_singleton.mp hc, Change.topic?]

theorem topic?_of_mem_ofLabel {raw : List Char} {change : String → Change} {t : Topic}
    (hchange : ∀ label, (change label).topic? = some t)
    (hc : c ∈ (Directive.ofLabel raw change).changes) : c.topic? = some t := by
  rcases Directive.ofLabel_cases raw change with ⟨label, -, h⟩ | ⟨-, h⟩
  · rw [h] at hc
    rw [List.mem_singleton.mp hc, hchange]
  · rw [h] at hc
    exact absurd hc List.not_mem_nil

theorem topic?_of_mem_ofTheme {id : List Char}
    (hc : c ∈ (Directive.ofTheme id).changes) : c.topic? = some .theme := by
  rcases Directive.ofTheme_cases id with ⟨-, h⟩ | ⟨-, h⟩
  · rw [h] at hc
    rw [List.mem_singleton.mp hc, Change.topic?]
  · rw [h] at hc
    exact absurd hc List.not_mem_nil

/-- **Groups do not meddle**: a word that makes a change of a group is one of
its words. -/
theorem Topic.has_of_mem_changes {t : Topic} (hc : c ∈ (Directive.ofWord word).changes)
    (ht : c.topic? = some t) : t.has word = true := by
  rcases Directive.ofWord_cases word with ⟨entry, hentry, rfl, hof⟩ |
    ⟨entry, hentry, value, rfl, hof⟩ | hof
  · rw [hof] at hc
    obtain rfl := List.mem_singleton.mp hc
    simp only [Directive.flags, List.mem_cons, List.not_mem_nil, or_false] at hentry
    rcases hentry with rfl | rfl | rfl | rfl
    · cases ht
      simp [has]
    all_goals cases ht
  · rw [hof] at hc
    simp only [Directive.readers, List.mem_cons, List.not_mem_nil, or_false] at hentry
    rcases hentry with rfl | rfl | rfl | rfl | rfl | rfl
    · rw [topic?_of_mem_ofLineSpec hc] at ht
      cases ht
    · rw [topic?_of_mem_ofLineNumber hc] at ht
      cases ht
      simp [has, Text.startsWith, Text.after?]
    · rw [topic?_of_mem_ofLabel (fun _ => rfl) hc] at ht
      cases ht
      simp [has, Text.startsWith, Text.after?]
    · rw [topic?_of_mem_ofLabel (fun _ => rfl) hc] at ht
      cases ht
      simp [has, Text.startsWith, Text.after?]
    · rw [topic?_of_mem_ofLabel (fun _ => rfl) hc] at ht
      cases ht
      simp [has, Text.startsWith, Text.after?]
    · rw [topic?_of_mem_ofTheme hc] at ht
      cases ht
      simp [has, Text.startsWith, Text.after?]
  · rw [hof] at hc
    exact absurd hc List.not_mem_nil

/-- What a group sets, its own words decide. -/
theorem latest?_changesOf_congr {view : Change → Option α} {t : Topic}
    (hview : ∀ c, (view c).isSome → c.topic? = some t)
    (horder : words.filter t.has = words'.filter t.has) :
    latest? view (changesOf words) = latest? view (changesOf words') := by
  have hout : ∀ word, t.has word = false →
      ∀ c ∈ (Directive.ofWord word).changes, view c = none := by
    intro word hhas c hc
    rw [← Option.not_isSome_iff_eq_none]
    intro hsome
    exact Bool.eq_false_iff.mp hhas (Topic.has_of_mem_changes hc (hview c hsome))
  rw [latest?, latest?, ← filterMap_changesOf_filter hout words, horder,
    filterMap_changesOf_filter hout]

/-- **The same words**, in the same order within each group, ask for the same
configuration. -/
theorem config_congr (language : List Char) (hmem : ∀ word, word ∈ words ↔ word ∈ words')
    (horder : ∀ t : Topic, words.filter t.has = words'.filter t.has) :
    (ofWords (language :: words)).config = (ofWords (language :: words')).config := by
  -- Flags and marked lines depend on which changes there are; of the others the
  -- last one counts, and that is one of its own topic.
  have hchanges : ∀ c, c ∈ changesOf words ↔ c ∈ changesOf words' := by
    intro c
    simp only [mem_changesOf, hmem]
  have hflag : ∀ c, (changesOf words).contains c = (changesOf words').contains c := by
    intro c
    rw [Bool.eq_iff_iff, List.contains_iff_mem, List.contains_iff_mem, hchanges]
  have hmarks : LineRange.union ((changesOf words).filterMap Change.range?) =
      LineRange.union ((changesOf words').filterMap Change.range?) := by
    refine LineRange.union_congr fun r => ?_
    simp only [List.mem_filterMap, hchanges]
  have hnumbers : latest? Change.numbers? (changesOf words) =
      latest? Change.numbers? (changesOf words') :=
    latest?_changesOf_congr (by intro c; cases c <;> simp [Change.topic?, Change.numbers?])
      (horder .numbers)
  have hstart : latest? Change.start? (changesOf words) =
      latest? Change.start? (changesOf words') :=
    latest?_changesOf_congr (by intro c; cases c <;> simp [Change.topic?, Change.start?])
      (horder .numbers)
  have htitle : latest? Change.title? (changesOf words) =
      latest? Change.title? (changesOf words') :=
    latest?_changesOf_congr (by intro c; cases c <;> simp [Change.topic?, Change.title?])
      (horder .title)
  have hfilename : latest? Change.filename? (changesOf words) =
      latest? Change.filename? (changesOf words') :=
    latest?_changesOf_congr (by intro c; cases c <;> simp [Change.topic?, Change.filename?])
      (horder .filename)
  have htheme : latest? Change.theme? (changesOf words) =
      latest? Change.theme? (changesOf words') :=
    latest?_changesOf_congr (by intro c; cases c <;> simp [Change.topic?, Change.theme?])
      (horder .theme)
  simp only [config_ofWords, hmarks, hnumbers, hstart, htitle, hfilename, htheme, hflag]

/-- A word that only adds may be given again, anywhere. -/
theorem config_repeat (language : List Char) {before after : List (List Char)}
    (hmem : word ∈ before ++ after) (honly : onlyAdds word = true) :
    (ofWords (language :: (before ++ word :: after))).config =
      (ofWords (language :: (before ++ after))).config := by
  refine config_congr language (fun w => ?_) fun t => ?_
  · rw [List.mem_append, List.mem_cons, List.mem_append]
    rw [List.mem_append] at hmem
    constructor
    · rintro (hbefore | rfl | hafter)
      · exact Or.inl hbefore
      · exact hmem
      · exact Or.inr hafter
    · rintro (hbefore | hafter)
      · exact Or.inl hbefore
      · exact Or.inr (Or.inr hafter)
  · have hnot : ¬ t.has word = true := by simp [has_of_onlyAdds t honly]
    rw [List.filter_append, List.filter_cons_of_neg hnot, List.filter_append]

/-- Each word is warned about on its own. -/
theorem warnings_perm (language : List Char) (hperm : words'.Perm words) :
    (ofWords (language :: words')).warnings.Perm (ofWords (language :: words)).warnings := by
  rw [warnings_ofWords, warnings_ofWords]
  exact hperm.filterMap _

/-- **Directives are independent.**  If words are put in another order that
keeps the order within each group, the configuration is the same, and so are the
warnings but for their order.  Words of no group, such as marks, flags and
unknown ones, may stand anywhere; and a word that only adds may be repeated. -/
theorem ofWords_rearranged (language : List Char) (words : List (List Char)) :
    (∀ words' : List (List Char), words'.Perm words →
      (∀ t : Topic, words'.filter t.has = words.filter t.has) →
        (ofWords (language :: words')).config = (ofWords (language :: words)).config ∧
          (ofWords (language :: words')).warnings.Perm (ofWords (language :: words)).warnings) ∧
      ∀ (before after : List (List Char)) (word : List Char), words = before ++ after →
        word ∈ words → onlyAdds word = true →
          (ofWords (language :: (before ++ word :: after))).config =
            (ofWords (language :: words)).config := by
  constructor
  · intro words' hperm horder
    exact ⟨config_congr language (fun word => hperm.mem_iff) horder, warnings_perm language hperm⟩
  · rintro before after word rfl hmem honly
    exact config_repeat language hmem honly

/-- The flag goes first and comes twice, and the title moves to the end; `ln`
stays before `ln:7`. -/
theorem ofWords_rearranged_foldFirst :
    ["fold", "ln", "ln:7", "title:a"].Perm ["ln", "title:a", "ln:7", "fold"] ∧
      (ofWords (["rust", "fold", "ln", "ln:7", "title:a"].map String.toList)).config =
        (ofWords (["rust", "ln", "title:a", "ln:7", "fold"].map String.toList)).config ∧
      (ofWords (["rust", "ln", "fold", "title:a", "ln:7", "fold"].map String.toList)).config =
        (ofWords (["rust", "ln", "title:a", "ln:7", "fold"].map String.toList)).config := by
  have hlaw := ofWords_rearranged "rust".toList
    (["ln", "title:a", "ln:7", "fold"].map String.toList)
  have horder : ∀ t : Topic,
      (["fold", "ln", "ln:7", "title:a"].map String.toList).filter t.has =
        (["ln", "title:a", "ln:7", "fold"].map String.toList).filter t.has := by
    intro t
    cases t <;> decide
  refine ⟨by decide, ?_, ?_⟩
  · exact (hlaw.1 (["fold", "ln", "ln:7", "title:a"].map String.toList) (by decide) horder).1
  · exact hlaw.2 ["ln".toList] (["title:a", "ln:7", "fold"].map String.toList) "fold".toList rfl
      (by decide) (by decide)

end CodeFence.InfoString
