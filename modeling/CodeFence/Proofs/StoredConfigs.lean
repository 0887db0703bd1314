import CodeFence.Proofs.CodeBlocks
import CodeFence.Proofs.ConfigRoundTrip
import CodeFence.Proofs.DirectiveOrder
import CodeFence.Proofs.RepairLaws
import CodeFence.Proofs.WordCuts

/-!
# Configurations that are used

A configuration is repaired only if it is not valid, but to be valid it need not be
clean: the check asks nothing of the labels, of the theme, or of how the language is
written.  What is read from an info string is clean all the same, since every
directive checks its value.  But a recorded configuration may come from anywhere; if
it is valid it is used as it is.  And the language that a block of code suggests
takes the place of a canonical one, though it may be the abbreviation `bash`.

* `isBlank_of_word` — a word holds no blank outside of its quoted spans;
* `isClean_parse` — info strings ask for clean configurations;
* `isClean_repaired_iff`, `isClean_ofCode_iff`, `isClean_blockConfig_iff` — which
  configurations are used though they are not clean;
* `clean_iff` — what a repair leaves alone, and what is clean.
-/

namespace CodeFence

namespace InfoString

variable {words : List (List Char)}

/-- A word is the only word of its own. -/
theorem Settled.wordChars_eq (h : Settled words) : ∀ w ∈ words, wordChars w = [w] := by
  induction words with
  | nil => simp
  | cons w rest ih =>
      cases rest with
      | nil =>
          intro u hu
          rw [List.mem_singleton.mp hu]
          exact h.2
      | cons v more =>
          obtain ⟨hne, hopen, hrest⟩ := h
          intro u hu
          rcases List.mem_cons.mp hu with rfl | hu
          · exact wordChars_of_quoteAfter hne hopen
          · exact ih hrest u hu

/-- **A word holds no blank** outside of its quoted spans: it would be cut there. -/
theorem isBlank_of_word {lead rest : List Char} {c : Char}
    (hword : wordChars (lead ++ c :: rest) = [lead ++ c :: rest]) (hne : lead ≠ [])
    (hlead : quoteAfter none lead = some none) : Text.isBlank c = false := by
  rw [Bool.eq_false_iff]
  intro hblank
  have hend : endWord [] lead.reverse = [lead] := by simp [endWord, hne]
  have hearly := wordsAfter_early [] [lead] [] none rest
  rw [wordChars, wordsAfter_append hlead, List.append_nil, wordsAfter_blank hblank, hend] at hword
  rw [List.nil_append, hword] at hearly
  have hfirst : lead ++ c :: rest = lead := (List.cons.inj hearly).1
  simpa using congrArg List.length hfirst

/-- A theme that words ask for is not blank. -/
theorem isBlankText_theme (hwords : ∀ w ∈ words, wordChars w = [w]) {id : String}
    (h : latest? Change.theme? (changesOf words) = some id) : Text.isBlankText id = false := by
  obtain ⟨change, hchange, hview⟩ := List.mem_filterMap.mp (List.mem_of_getLast? h)
  obtain ⟨word, hword, hmem⟩ := mem_changesOf.mp hchange
  cases change <;> cases hview
  have hlead : Topic.theme.has word = true := Topic.has_of_mem_changes hmem rfl
  obtain ⟨value, hvalue⟩ := Option.isSome_iff_exists.mp hlead
  obtain rfl := Text.after?_eq_some_iff.mp hvalue
  have hreader : ("theme:", Directive.ofTheme) ∈ Directive.readers := by simp [Directive.readers]
  rw [Directive.ofWord_reader hreader, Directive.ofTheme] at hmem
  cases value with
  | nil => cases hmem
  | cons c rest =>
      obtain rfl : id = String.ofList (c :: rest) :=
        Change.theme.inj (List.mem_singleton.mp hmem)
      have hc : Text.isBlank c = false :=
        isBlank_of_word (hwords _ hword) (by decide) (by decide)
      rw [Text.isBlankText, String.toList_ofList, List.all_cons, hc, Bool.false_and]

theorem isClean_ofWords (language : List Char) (hwords : ∀ w ∈ words, wordChars w = [w]) :
    (ofWords (language :: words)).config.IsClean := by
  have hmodel := inModel_ofWords language words
  refine ⟨hmodel.language_canonical, hmodel.title, hmodel.filename, fun id hid => ?_⟩
  rw [config_ofWords] at hid
  exact isBlankText_theme hwords hid

/-- **Info strings ask for clean configurations.** -/
theorem isClean_parse (info : String) : (parse info).config.IsClean := by
  have hsettled : Settled (wordChars info.toList) := settled_wordChars info.toList
  rw [parse]
  cases hwords : wordChars info.toList with
  | nil =>
      rw [config_ofWords_nil]
      exact isClean_ofWords plainText.toList (by simp)
  | cons language words =>
      rw [hwords] at hsettled
      exact isClean_ofWords language fun w hw =>
        hsettled.wordChars_eq w (List.mem_cons_of_mem language hw)

end InfoString

/-- The languages that code suggests are canonical names, but for one. -/
theorem Detect.canonical_or_eq_bash {code language : String}
    (h : Detect.language? code = some language) :
    canonicalLanguage language = language ∨ language = "bash" := by
  have hnames : ∀ name ∈ (interpreters ++ openings).map Prod.snd,
      isFullName name = true ∨ name = "bash" := by decide
  refine (hnames language (mem_languages h)).imp_left fun hfull => ?_
  exact (isCanonical_of_isFullName hfull).canonicalLanguage_eq

namespace BlockConfig

variable {c : BlockConfig}

/-- **A valid configuration is used as it is**, clean or not. -/
theorem isClean_repaired_iff : c.repaired.IsClean ↔ (c.isValid = true → c.IsClean) := by
  unfold repaired
  split
  · rename_i hvalid
    exact ⟨fun hclean _ => hclean, fun hclean => hclean hvalid⟩
  · rename_i hnot
    exact ⟨fun _ hvalid => absurd hvalid hnot, fun _ => c.isClean_sanitize.1⟩

/-- **The configuration of a block of code** is clean, unless its code suggests that
it is a script for `bash`. -/
theorem isClean_ofCode_iff (s : Settings) (info code : String) :
    (ofCode s info code).IsClean ↔ ¬ IsDetected s info code "bash" := by
  have hread : (InfoString.parse info).config.repaired.IsClean :=
    isClean_repaired_iff.mpr fun _ => InfoString.isClean_parse info
  constructor
  · intro hclean hdetected
    rw [ofCode_of_detected hdetected] at hclean
    have hsame : canonicalLanguage "bash" = "bash" := hclean.language
    have hcanonical := isCanonical_canonicalLanguage "bash"
    rw [hsame] at hcanonical
    exact absurd hcanonical.unabbreviated (by decide)
  · intro hnot
    rcases ofCode_cases s info code with heq | ⟨language, hdetected, heq⟩ <;> rw [heq]
    · exact hread
    · rcases Detect.canonical_or_eq_bash hdetected.2.2 with hcanonical | rfl
      · exact ⟨hcanonical, hread.title, hread.filename, hread.theme⟩
      · exact absurd hdetected hnot

/-- **The configuration of a recorded block** is clean, unless what is recorded is
valid and not clean. -/
theorem isClean_blockConfig_iff (a : BlockAttributes) : a.blockConfig.IsClean ↔
    ∀ c, a.config.bind parse? = some c → c.isValid = true → c.IsClean := by
  rw [BlockAttributes.blockConfig, isClean_repaired_iff]
  cases a.config.bind parse? with
  | none =>
      have hbare : ∀ language : String, canonicalLanguage language = language →
          ({ language } : BlockConfig).IsClean :=
        fun _ hcanonical => ⟨hcanonical, by simp, by simp, by simp⟩
      have hclean := hbare _ (isCanonical_canonicalLanguage a.language).canonicalLanguage_eq
      simpa using fun _ => hclean
  | some c => simp

/-- **What a repair leaves alone, and what is clean.**  A configuration is its own
repair exactly if it is valid and clean and has no blanks around its theme; so it may
be valid and yet no repair of its own.  Every repair is clean, but only what is not
valid is repaired: a valid configuration is used as it is.  A block of code is given
a clean configuration exactly if its code does not suggest `bash`, and a recorded
block exactly if its record cannot be read, is not valid, or is clean itself. -/
theorem clean_iff (c : BlockConfig) (s : Settings) (info code : String) (a : BlockAttributes) :
    (c.sanitize = c ↔
      c.isValid = true ∧ c.IsClean ∧ ∀ id ∈ c.theme, Text.trimmed id = id) ∧
    c.sanitize.IsClean ∧
    (c.repaired.IsClean ↔ (c.isValid = true → c.IsClean)) ∧
    ((ofCode s info code).IsClean ↔ ¬ IsDetected s info code "bash") ∧
    (a.blockConfig.IsClean ↔
      ∀ c, a.config.bind parse? = some c → c.isValid = true → c.IsClean) :=
  ⟨sanitize_eq_self_iff, c.isClean_sanitize.1, isClean_repaired_iff,
    isClean_ofCode_iff s info code, isClean_blockConfig_iff a⟩

/-- A valid configuration whose language is an abbreviation, with an empty title and
a blank theme. -/
def untidyConfig : BlockConfig where
  language := "JS"
  title := some ""
  theme := some " "

/-- A block that records it is configured by it as it is, though a repair would
change all three. -/
theorem not_isClean_untidyConfig :
    untidyConfig.isValid = true ∧
      untidyConfig.sanitize = { language := "javascript" } ∧
      (BlockAttributes.mk "JS" (some untidyConfig.render) "x").blockConfig = untidyConfig ∧
      ¬ untidyConfig.IsClean := by
  have hvalid : untidyConfig.isValid = true := by decide
  have hrange : untidyConfig.InRange := ⟨by decide, by decide⟩
  have hsanitize : untidyConfig.sanitize = { language := "javascript" } := by decide +kernel
  have hblock : (BlockAttributes.mk "JS" (some untidyConfig.render) "x").blockConfig =
      untidyConfig := BlockAttributes.blockConfig_of_render rfl hvalid hrange
  refine ⟨hvalid, hsanitize, hblock, fun hclean => ?_⟩
  have hblank : Text.isBlankText " " = false := hclean.theme " " rfl
  exact absurd hblank (by decide)

end BlockConfig

end CodeFence
