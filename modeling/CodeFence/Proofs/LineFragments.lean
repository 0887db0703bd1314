import Mathlib.Data.List.Perm.Subperm
import CodeFence.Proofs.Numerals
import CodeFence.Proofs.TextCuts
import CodeFence.Proofs.Directives

/-!
# The lines that an info string marks

A directive `hl:` is a list of fragments.  Each of them stands for one line or
for a range of lines, or it is good for nothing and then reported, unless it is
blank.  An info string marks the lines that any fragment of any such directive
stands for, in order and each once.

* `Marks` — the lines that a fragment stands for;
* `ofFragment?_eq_some_iff`, `marks_iff` — how a fragment is read;
* `fruitless` — the fragments of a specification that stand for no line;
* `mark_mem_changes_iff`, `fragments?_of_skipped` — what a word marks, and what is
  reported of it;
* `mem_highlightLines_iff` — what words mark together;
* `highlightLines_exact` — what a whole info string marks and what is reported.
-/

namespace CodeFence

namespace LineRange

variable {fragment : List Char} {line : Nat} {r : LineRange}

/-- A numeral of a number of 32 bits. -/
def IsNumber (cs : List Char) (n : Nat) : Prop :=
  Text.Writes cs n ∧ n < 4294967296

/-- The fragment stands for the line: it is the number of the line, or its first
dash stands between two numbers around that of the line.  No line below 1 or
beyond 100000 can be marked, nor any range that reaches there. -/
inductive Marks (fragment : List Char) (line : Nat) : Prop
  | one (hline : IsNumber fragment line) (hpos : 1 ≤ line) (hbound : line ≤ 100000)
  | range {front back : List Char} {first last : Nat}
      (hcut : fragment = front ++ '-' :: back) (hdash : '-' ∉ front)
      (hfirst : IsNumber (Text.trim front) first) (hlast : IsNumber (Text.trim back) last)
      (hpos : 1 ≤ first) (hfrom : first ≤ line) (hto : line ≤ last) (hbound : last ≤ 100000)

theorem whole?_maxNumber_eq_some_iff {cs : List Char} {n : Nat} :
    Text.whole? maxNumber cs = some n ↔ IsNumber cs n := by
  have hmax : maxNumber + 1 = 4294967296 := by decide
  rw [Text.whole?_eq_some_iff, IsNumber]
  constructor
  · rintro ⟨hwrites, hle⟩
    exact ⟨hwrites, by omega⟩
  · rintro ⟨hwrites, hlt⟩
    exact ⟨hwrites, by omega⟩

/-- There is no dash in a number. -/
theorem IsNumber.dash_not_mem {cs : List Char} {n : Nat} (h : IsNumber cs n) : '-' ∉ cs := by
  intro hmem
  rcases h.1.isDigit_or_eq_plus '-' hmem with hdigit | hplus
  · exact absurd hdigit (by decide)
  · exact absurd hplus (by decide)

theorem isSound_iff : r.isSound = true ↔ 1 ≤ r.first ∧ r.first ≤ r.last ∧ r.last ≤ 100000 := by
  unfold isSound maxMarkedLine
  simp only [Bool.and_eq_true, decide_eq_true_eq, and_assoc, Nat.succ_le_iff]

/-- **How a fragment is read**: as two numbers around its first dash, or as one
number if there is no dash. -/
theorem ofFragment?_eq_some_iff :
    ofFragment? fragment = some r ↔
      r.isSound = true ∧
        ((∃ front back, fragment = front ++ '-' :: back ∧ '-' ∉ front ∧
            IsNumber (Text.trim front) r.first ∧ IsNumber (Text.trim back) r.last) ∨
          IsNumber fragment r.first ∧ r.last = r.first) := by
  rw [ofFragment?, Option.filter_eq_some_iff, and_comm]
  refine and_congr_right fun _ => ?_
  -- The first dash decides: a number has none, and a range is cut there.
  cases hcut : Text.cutAround? ['-'] fragment with
  | none =>
      have hdash := Text.cutAround?_singleton_eq_none_iff.mp hcut
      dsimp only
      rw [Option.map_eq_some_iff]
      constructor
      · rintro ⟨n, hn, rfl⟩
        exact Or.inr ⟨whole?_maxNumber_eq_some_iff.mp hn, rfl⟩
      · rintro (⟨front, back, rfl, -⟩ | ⟨hnumber, hlast⟩)
        · exact absurd (List.mem_append_right _ List.mem_cons_self) hdash
        · exact ⟨r.first, whole?_maxNumber_eq_some_iff.mpr hnumber,
            congrArg (LineRange.mk r.first) hlast.symm⟩
  | some parts =>
      obtain ⟨front, back⟩ := parts
      obtain ⟨hfragment, hdash⟩ := Text.cutAround?_singleton_eq_some_iff.mp hcut
      dsimp only
      constructor
      · intro h
        obtain ⟨first, hfirst, h⟩ := Option.bind_eq_some_iff.mp h
        obtain ⟨last, hlast, h⟩ := Option.bind_eq_some_iff.mp h
        obtain rfl := Option.some.inj h
        exact Or.inl ⟨front, back, hfragment, hdash, whole?_maxNumber_eq_some_iff.mp hfirst,
          whole?_maxNumber_eq_some_iff.mp hlast⟩
      · rintro (⟨front', back', hfragment', hdash', hfirst, hlast⟩ | ⟨hnumber, -⟩)
        · have hcut' := Text.cutAround?_singleton_eq_some_iff.mpr ⟨hfragment', hdash'⟩
          obtain ⟨rfl, rfl⟩ := Prod.mk.inj (Option.some.inj (hcut.symm.trans hcut'))
          rw [whole?_maxNumber_eq_some_iff.mpr hfirst, whole?_maxNumber_eq_some_iff.mpr hlast]
          rfl
        · rw [hfragment] at hnumber
          exact absurd (List.mem_append_right _ List.mem_cons_self) hnumber.dash_not_mem

/-- **The lines that a fragment stands for** are those of the range that it is
read as. -/
theorem marks_iff :
    Marks fragment line ↔ ∃ r, ofFragment? fragment = some r ∧ r.first ≤ line ∧ line ≤ r.last := by
  constructor
  · intro h
    cases h with
    | one hline hpos hbound =>
        refine ⟨⟨line, line⟩, ofFragment?_eq_some_iff.mpr ⟨?_, Or.inr ⟨hline, rfl⟩⟩, ?_⟩
        · exact isSound_iff.mpr ⟨hpos, Nat.le_refl _, hbound⟩
        · exact ⟨Nat.le_refl _, Nat.le_refl _⟩
    | @range front back first last hcut hdash hfirst hlast hpos hfrom hto hbound =>
        refine ⟨⟨first, last⟩, ofFragment?_eq_some_iff.mpr ⟨?_, Or.inl ?_⟩, hfrom, hto⟩
        · exact isSound_iff.mpr ⟨hpos, Nat.le_trans hfrom hto, hbound⟩
        · exact ⟨front, back, hcut, hdash, hfirst, hlast⟩
  · rintro ⟨r, hread, hfrom, hto⟩
    obtain ⟨hsound, hparts⟩ := ofFragment?_eq_some_iff.mp hread
    obtain ⟨hpos, -, hbound⟩ := isSound_iff.mp hsound
    rcases hparts with ⟨front, back, hcut, hdash, hfirst, hlast⟩ | ⟨hnumber, hlast⟩
    · exact Marks.range hcut hdash hfirst hlast hpos hfrom hto hbound
    · obtain rfl : line = r.first := by omega
      exact Marks.one hnumber hpos (by omega)

/-- A fragment stands for a line if it can be read. -/
theorem exists_marks_iff :
    (∃ line, Marks fragment line) ↔ (ofFragment? fragment).isSome = true := by
  rw [Option.isSome_iff_exists]
  constructor
  · rintro ⟨line, hmarks⟩
    obtain ⟨r, hread, -⟩ := marks_iff.mp hmarks
    exact ⟨r, hread⟩
  · rintro ⟨r, hread⟩
    have hsound := isSound_iff.mp (ofFragment?_eq_some_iff.mp hread).1
    exact ⟨r.first, marks_iff.mpr ⟨r, hread, Nat.le_refl _, hsound.2.1⟩⟩

/-- Whether a fragment stands for any line can be computed. -/
instance decidableExistsMarks (fragment : List Char) : Decidable (∃ line, Marks fragment line) :=
  decidable_of_iff _ exists_marks_iff.symm

/-- Blank text stands for no line. -/
theorem Marks.ne_nil (h : Marks fragment line) : fragment ≠ [] := by
  cases h with
  | one hline => exact hline.1.ne_nil
  | range hcut =>
      rw [hcut]
      simp

end LineRange

namespace InfoString

open LineRange (Marks)

variable {word spec : List Char} {n : Nat}

/-- The fragments of a specification that stand for no line, in order.  A blank
one is none. -/
def fruitless (spec : List Char) : List (List Char) :=
  ((Text.splitAt ',' spec).map Text.trim).filter fun f => f ≠ [] ∧ ¬ ∃ line, Marks f line

/-- The fragments that a warning names, with the directive that they stand in. -/
def Warning.fragments? (w : Warning) : Option (String × List String) :=
  match w.reason with
  | .invalidLineSpec fragments => some (w.directive, fragments)
  | _ => none

/-- A word that is a directive `hl:`, if it has fruitless fragments, and these. -/
def fruitlessOf? (word : List Char) : Option (String × List String) :=
  (Text.after? "hl:".toList word).bind fun spec =>
    if fruitless spec = [] then none
    else some (String.ofList word, (fruitless spec).map String.ofList)

/-! ## One word -/

/-- What the directive `hl:` marks. -/
theorem mark_mem_ofLineSpec {lines : LineRange} :
    Change.mark lines ∈ (Directive.ofLineSpec spec).changes ↔
      ∃ piece ∈ Text.splitAt ',' spec, LineRange.ofFragment? (Text.trim piece) = some lines := by
  simp only [Directive.ofLineSpec, lineFragments, List.mem_map, List.mem_filterMap,
    List.mem_filter, Change.mark.injEq]
  constructor
  · rintro ⟨r, ⟨f, ⟨⟨piece, hpiece, rfl⟩, -⟩, hread⟩, rfl⟩
    exact ⟨piece, hpiece, hread⟩
  · rintro ⟨piece, hpiece, hread⟩
    obtain ⟨line, hmarks⟩ := LineRange.exists_marks_iff.mpr (Option.isSome_of_mem hread)
    refine ⟨lines, ⟨Text.trim piece, ⟨⟨piece, hpiece, rfl⟩, ?_⟩, hread⟩, rfl⟩
    simpa using hmarks.ne_nil

/-- What the directive `hl:` reports. -/
theorem skipped_ofLineSpec (spec : List Char) :
    (Directive.ofLineSpec spec).skipped =
      if fruitless spec = [] then
        if spec.all Text.isBlank then some .emptyValue else none
      else some (.invalidLineSpec ((fruitless spec).map String.ofList)) := by
  have hinvalid : (lineFragments spec).filter (fun f => (LineRange.ofFragment? f).isNone) =
      fruitless spec := by
    rw [lineFragments, fruitless, List.filter_filter]
    apply List.filter_congr
    intro f _
    rw [Bool.eq_iff_iff]
    simp [LineRange.exists_marks_iff, and_comm]
  unfold Directive.ofLineSpec
  simp only [hinvalid]
  by_cases hnone : fruitless spec = [] <;> simp [hnone]

/-- A word is a directive `hl:`, or it marks no lines and no fragments are
reported of it. -/
theorem ofWord_lineSpec_or (word : List Char) :
    (∃ spec, word = "hl:".toList ++ spec ∧
        Directive.ofWord word = Directive.ofLineSpec spec) ∨
      Text.after? "hl:".toList word = none ∧
        (∀ lines, Change.mark lines ∉ (Directive.ofWord word).changes) ∧
        ∀ fragments, (Directive.ofWord word).skipped ≠ some (.invalidLineSpec fragments) := by
  cases hafter : Text.after? "hl:".toList word with
  | some spec =>
      left
      obtain rfl := Text.after?_eq_some_iff.mp hafter
      exact ⟨spec, rfl, Directive.ofWord_reader (by simp [Directive.readers]) spec⟩
  | none =>
      refine Or.inr ⟨rfl, ?_⟩
      rcases Directive.ofWord_cases word with ⟨entry, hentry, -, hof⟩ |
        ⟨entry, hentry, value, rfl, hof⟩ | hof
      · rw [hof]
        simp only [Directive.flags, List.mem_cons, List.not_mem_nil, or_false] at hentry
        rcases hentry with rfl | rfl | rfl | rfl <;> simp
      · rw [hof]
        simp only [Directive.readers, List.mem_cons, List.not_mem_nil, or_false] at hentry
        rcases hentry with rfl | rfl | rfl | rfl | rfl | rfl
        · rw [Text.after?_eq_some_iff.mpr rfl] at hafter
          cases hafter
        · rcases Directive.ofLineNumber_cases value with ⟨on, h⟩ |
            ⟨line, skipped, -, -, rfl | ⟨n, rfl⟩, h⟩ | h | ⟨n, -, -, h⟩ <;> simp [h]
        · rcases Directive.ofLabel_cases value .title with ⟨label, -, h⟩ | ⟨-, h⟩ <;> simp [h]
        · rcases Directive.ofLabel_cases value .title with ⟨label, -, h⟩ | ⟨-, h⟩ <;> simp [h]
        · rcases Directive.ofLabel_cases value .filename with ⟨label, -, h⟩ | ⟨-, h⟩ <;> simp [h]
        · rcases Directive.ofTheme_cases value with ⟨-, h⟩ | ⟨-, h⟩ <;> simp [h]
      · simp [hof]

/-- **What a word marks**: the ranges that the pieces of a directive `hl:` are
read as. -/
theorem mark_mem_changes_iff {lines : LineRange} :
    Change.mark lines ∈ (Directive.ofWord word).changes ↔
      ∃ spec, word = "hl:".toList ++ spec ∧ ∃ piece ∈ Text.splitAt ',' spec,
        LineRange.ofFragment? (Text.trim piece) = some lines := by
  rcases ofWord_lineSpec_or word with ⟨spec, rfl, hof⟩ | ⟨hafter, hmarks, -⟩
  · rw [hof, mark_mem_ofLineSpec]
    simp only [List.append_cancel_left_eq, exists_eq_left']
  · constructor
    · intro hmem
      exact absurd hmem (hmarks lines)
    · rintro ⟨spec, rfl, -⟩
      rw [Text.after?_eq_some_iff.mpr rfl] at hafter
      cases hafter

/-- **What is reported of a word**: the fruitless fragments of a directive `hl:`. -/
theorem fragments?_of_skipped (word : List Char) :
    ((Directive.ofWord word).skipped.map fun reason =>
        (⟨String.ofList word, reason⟩ : Warning)).bind Warning.fragments? =
      fruitlessOf? word := by
  rcases ofWord_lineSpec_or word with ⟨spec, rfl, hof⟩ | ⟨hafter, -, hskipped⟩
  · have hafter : Text.after? "hl:".toList ("hl:".toList ++ spec) = some spec :=
      Text.after?_eq_some_iff.mpr rfl
    rw [hof, skipped_ofLineSpec, fruitlessOf?, hafter, Option.bind_some]
    by_cases hnone : fruitless spec = []
    · rw [if_pos hnone, if_pos hnone]
      split <;> rfl
    · rw [if_neg hnone, if_neg hnone]
      rfl
  · rw [fruitlessOf?, hafter, Option.bind_none]
    cases hreason : (Directive.ofWord word).skipped with
    | none => rfl
    | some reason =>
        rw [hreason] at hskipped
        cases reason with
        | invalidLineSpec fragments => exact absurd rfl (hskipped fragments)
        | _ => rfl

/-! ## The whole info string -/

/-- The lines that words behind a language mark. -/
theorem mem_highlightLines_iff (language : List Char) (words : List (List Char)) :
    n ∈ (ofWords (language :: words)).config.highlightLines ↔
      ∃ spec, "hl:".toList ++ spec ∈ words ∧
        ∃ piece ∈ Text.splitAt ',' spec, Marks (Text.trim piece) n := by
  rw [config_ofWords, LineRange.mem_union]
  constructor
  · rintro ⟨-, lines, hlines, hcovers⟩
    obtain ⟨c, hc, hrange⟩ := List.mem_filterMap.mp hlines
    cases c <;> cases hrange
    obtain ⟨word, hword, hmark⟩ := mem_changesOf.mp hc
    obtain ⟨spec, rfl, piece, hpiece, hread⟩ := mark_mem_changes_iff.mp hmark
    exact ⟨spec, hword, piece, hpiece, LineRange.marks_iff.mpr ⟨lines, hread, hcovers⟩⟩
  · rintro ⟨spec, hword, piece, hpiece, hmarks⟩
    obtain ⟨lines, hread, hfrom, hto⟩ := LineRange.marks_iff.mp hmarks
    have hsound := LineRange.isSound_iff.mp (LineRange.ofFragment?_eq_some_iff.mp hread).1
    refine ⟨by omega, lines, List.mem_filterMap.mpr ⟨.mark lines, ?_, rfl⟩, hfrom, hto⟩
    refine mem_changesOf.mpr ⟨_, hword, mark_mem_changes_iff.mpr ?_⟩
    exact ⟨spec, rfl, piece, hpiece, hread⟩

/-- A fragment stands only for lines that can be marked. -/
theorem bounds_of_marks {fragment : List Char} (h : Marks fragment n) : 1 ≤ n ∧ n ≤ 100000 := by
  cases h with
  | one _ hpos hbound => exact ⟨hpos, hbound⟩
  | range _ _ _ _ hpos hfrom hto hbound =>
      exact ⟨Nat.le_trans hpos hfrom, Nat.le_trans hto hbound⟩

/-- There are no more rising numbers than numbers between their bounds. -/
theorem length_le_of_pairwise {lines : List Nat} {bound : Nat} (hrise : lines.Pairwise (· < ·))
    (hbounds : ∀ n ∈ lines, 1 ≤ n ∧ n ≤ bound) : lines.length ≤ bound := by
  have hnodup : lines.Nodup := hrise.imp Nat.ne_of_lt
  have hsubset : lines ⊆ List.range' 1 bound := by
    intro n hn
    have hn' := hbounds n hn
    rw [List.mem_range'_1]
    omega
  have hlength := (hnodup.subperm hsubset).length_le
  rwa [List.length_range'] at hlength

/-- **The lines that an info string marks** rise and lie between 1 and 100000, so
that there are never more than 100000 of them, however many ranges are given.
They are those that some piece of some directive `hl:` behind the language stands
for.  What is reported of each of these directives, in turn, is its fruitless
fragments, if it has any. -/
theorem highlightLines_exact (info : String) :
    let words := (wordChars info.toList).tail
    let r := parse info
    let lines := r.config.highlightLines
    lines.Pairwise (· < ·) ∧ (∀ n ∈ lines, 1 ≤ n ∧ n ≤ 100000) ∧ lines.length ≤ 100000 ∧
      (∀ n, n ∈ lines ↔ ∃ spec, "hl:".toList ++ spec ∈ words ∧
        ∃ piece ∈ Text.splitAt ',' spec, Marks (Text.trim piece) n) ∧
      r.warnings.filterMap Warning.fragments? = words.filterMap fruitlessOf? := by
  unfold parse
  cases wordChars info.toList with
  | nil => simp [ofWords]
  | cons language words =>
      intro words' r lines
      have hmem : ∀ n, n ∈ lines ↔ ∃ spec, "hl:".toList ++ spec ∈ words ∧
          ∃ piece ∈ Text.splitAt ',' spec, Marks (Text.trim piece) n := fun n =>
        mem_highlightLines_iff language words
      have hrise : lines.Pairwise (· < ·) := by
        simp only [lines, r, config_ofWords]
        exact LineRange.pairwise_union _
      have hbounds : ∀ n ∈ lines, 1 ≤ n ∧ n ≤ 100000 := by
        intro n hn
        obtain ⟨_, -, _, -, hmarks⟩ := (hmem n).mp hn
        exact bounds_of_marks hmarks
      refine ⟨hrise, hbounds, length_le_of_pairwise hrise hbounds, hmem, ?_⟩
      simp only [r, warnings_ofWords, List.filterMap_filterMap, fragments?_of_skipped]
      rfl

end InfoString

end CodeFence
