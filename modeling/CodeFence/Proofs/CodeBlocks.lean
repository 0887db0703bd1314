import CodeFence.Page.Render
import CodeFence.Proofs.ConfigRepair
import CodeFence.Proofs.ReadConfigs
import CodeFence.Proofs.TextCuts

/-!
# The source and the configuration of a block of code

The source of a block of code is its text without one line end.  No directive
can give a number that does not fit into 32 bits, so what an info string asks
for can be recorded.  It is repaired, and a language that the code suggests is
never blank; so the configuration of a block of code is always fit for use.

* `sourceOf_cases` — the source of a block of code;
* `Change.InRange`, `inRange_of_mem_changesOf` — the numbers in directives;
* `inRange_parse` — the numbers of a configuration that was read;
* `Detect.mem_languages`, `Detect.not_blank` — languages that code suggests;
* `isValid_ofCode`, `inRange_ofCode` — the configuration of a block of code;
* `ofCode_of_detected`, `ofCode_of_not_detected` — its language.
-/

namespace CodeFence

/-- A source is a text without one line end, if there is one. -/
theorem sourceOf_cases (text : String) :
    text = sourceOf text ++ "\n" ∨ text = sourceOf text ∧ ¬ ['\n'] <:+ text.toList := by
  unfold sourceOf
  cases hcut : Text.before? ['\n'] text.toList with
  | some front =>
      left
      have htext : text.toList = front ++ ['\n'] := Text.before?_eq_some_iff.mp hcut
      refine String.toList_injective ?_
      simp [htext]
  | none =>
      right
      exact ⟨(String.ofList_toList).symm, Text.before?_eq_none_iff.mp hcut⟩

namespace InfoString

/-- The number in a change fits into 32 bits. -/
def Change.InRange : Change → Prop
  | .startAt line => line < Text.bitBound 32
  | .mark lines => lines.last < Text.bitBound 32
  | _ => True

/-- What is made of a value fits, for a line that can be marked does. -/
theorem Change.FromValue.inRange {c : Change} (h : c.FromValue) : c.InRange := by
  cases c with
  | mark lines =>
      have hbound : maxMarkedLine < Text.bitBound 32 := by decide
      simp only [FromValue, LineRange.isSound, Bool.and_eq_true, decide_eq_true_eq] at h
      exact Nat.lt_of_le_of_lt h.2 hbound
  | startAt line => exact h.2
  | _ => trivial

/-- **The numbers of a directive** fit into 32 bits. -/
theorem inRange_of_mem_changesOf {words : List (List Char)} {c : Change}
    (h : c ∈ changesOf words) : c.InRange := by
  have hflags : ∀ entry ∈ Directive.flags, entry.2.InRange := by
    simp [Directive.flags, Change.InRange]
  obtain ⟨word, -, hc⟩ := mem_changesOf.mp h
  rcases Directive.changes_ofWord_cases hc with ⟨entry, hentry, -, rfl⟩ | hmade
  · exact hflags entry hentry
  · exact hmade.inRange

/-- **What can be read can be recorded.** -/
theorem inRange_parse (info : String) : (parse info).config.InRange := by
  have hone : 1 < Text.bitBound 32 := by decide
  unfold parse
  cases wordChars info.toList with
  | nil => exact ⟨hone, by simp [ofWords]⟩
  | cons language words =>
      rw [config_ofWords]
      refine ⟨?_, ?_⟩
      · dsimp only
        cases hlatest : latest? Change.start? (changesOf words) with
        | none => exact hone
        | some line =>
            obtain ⟨c, hmade, hstart⟩ := fromValue_of_latest? (by decide) hlatest
            cases c <;> cases hstart
            exact hmade.inRange
      · intro n hn
        obtain ⟨-, lines, hmem, -, hlast⟩ := LineRange.mem_union.mp hn
        obtain ⟨c, hc, hlines⟩ := List.mem_filterMap.mp hmem
        have hrange := inRange_of_mem_changesOf hc
        cases c <;> cases hlines
        exact Nat.lt_of_le_of_lt hlast hrange

end InfoString

/-- A language that code suggests is one of a table. -/
theorem Detect.mem_languages {code language : String} (h : Detect.language? code = some language) :
    language ∈ (interpreters ++ openings).map Prod.snd := by
  obtain ⟨line, -, hline⟩ := Option.bind_eq_some_iff.mp h
  rw [List.map_append, List.mem_append]
  unfold ofLine? at hline
  split at hline
  · obtain ⟨program, -, hlookup⟩ := Option.bind_eq_some_iff.mp hline
    obtain ⟨front, back, htable, -⟩ := List.lookup_eq_some_iff.mp hlookup
    left
    rw [htable]
    simp
  · obtain ⟨entry, hfind, rfl⟩ := Option.map_eq_some_iff.mp hline
    exact Or.inr (List.mem_map_of_mem (List.mem_of_find?_eq_some hfind))

/-- It has a name. -/
theorem Detect.not_blank {code language : String} (h : Detect.language? code = some language) :
    Text.isBlankText language = false := by
  have hnames : ∀ name ∈ (interpreters ++ openings).map Prod.snd,
      Text.isBlankText name = false := by decide
  exact hnames language (mem_languages h)

namespace BlockConfig

variable {s : Settings} {info code : String}

/-- A block is taken for what its code suggests only if nothing else says what
it is, and if that is wished. -/
def IsDetected (s : Settings) (info code language : String) : Prop :=
  Text.isBlankText info = true ∧ s.autoDetectLanguage = true ∧
    Detect.language? code = some language

theorem ofCode_of_detected {language : String} (h : IsDetected s info code language) :
    ofCode s info code = { (InfoString.parse info).config.repaired with language } := by
  obtain ⟨hblank, hwished, hfound⟩ := h
  simp [ofCode, hblank, hwished, hfound]

theorem ofCode_of_not_detected (h : ∀ language, ¬ IsDetected s info code language) :
    ofCode s info code = (InfoString.parse info).config.repaired := by
  unfold ofCode
  dsimp only
  split
  · rename_i hwished
    rw [Bool.and_eq_true] at hwished
    split
    · rename_i language hfound
      exact absurd ⟨hwished.2, hwished.1, hfound⟩ (h language)
    · rfl
  · rfl

/-- A block of code has the configuration that was read, or that one in another
language. -/
theorem ofCode_cases (s : Settings) (info code : String) :
    ofCode s info code = (InfoString.parse info).config.repaired ∨
      ∃ language, IsDetected s info code language ∧
        ofCode s info code = { (InfoString.parse info).config.repaired with language } := by
  by_cases h : ∃ language, IsDetected s info code language
  · obtain ⟨language, hdetected⟩ := h
    exact Or.inr ⟨language, hdetected, ofCode_of_detected hdetected⟩
  · exact Or.inl (ofCode_of_not_detected fun language hdetected => h ⟨language, hdetected⟩)

/-- Only a blank language could harm a valid configuration. -/
theorem isValid_withLanguage {c : BlockConfig} (hc : c.isValid = true) {language : String}
    (h : Text.isBlankText language = false) : { c with language }.isValid = true := by
  unfold isValid at hc ⊢
  simp only [Bool.and_eq_true] at hc ⊢
  exact ⟨⟨⟨⟨by simp [h], hc.1.1.1.2⟩, hc.1.1.2⟩, hc.1.2⟩, hc.2⟩

/-- **The configuration of a block of code** is fit for use. -/
theorem isValid_ofCode (s : Settings) (info code : String) :
    (ofCode s info code).isValid = true := by
  have hread := isValid_repaired (InfoString.parse info).config
  rcases ofCode_cases s info code with heq | ⟨language, ⟨-, -, hfound⟩, heq⟩ <;> rw [heq]
  · exact hread
  · exact isValid_withLanguage hread (Detect.not_blank hfound)

/-- It can be recorded. -/
theorem inRange_ofCode (s : Settings) (info code : String) : (ofCode s info code).InRange := by
  have hread := (InfoString.inRange_parse info).repaired
  rcases ofCode_cases s info code with heq | ⟨language, -, heq⟩ <;> rw [heq]
  · exact hread
  · exact ⟨hread.startLine, hread.lines⟩

end BlockConfig

end CodeFence
