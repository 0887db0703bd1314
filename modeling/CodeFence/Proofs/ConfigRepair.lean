import CodeFence.Proofs.LanguageNames
import CodeFence.Proofs.LineSearch
import CodeFence.Text.Numeral

/-!
# Repaired configurations

A configuration that is repaired is fit for use, and repairing it once more
changes nothing.  The language of a repaired configuration is a canonical name,
which is never blank.

* `pairwise_dropRepeats` — an ordered list without repeats rises strictly;
* `isValid_sanitize`, `isValid_repaired` — what is repaired is valid;
* `InRange` — the numbers of a configuration fit into 32 bits, which no repair
  changes.
-/

namespace CodeFence

/-! ## Lists of lines -/

theorem mem_consDistinct {n m : Nat} {ns : List Nat} :
    m ∈ consDistinct n ns ↔ m = n ∨ m ∈ ns := by
  cases ns with
  | nil => simp [consDistinct]
  | cons k ns =>
      rw [consDistinct]
      split
      · rename_i hsame
        simp [hsame]
      · simp

theorem dropRepeats_cons (n : Nat) (ns : List Nat) :
    dropRepeats (n :: ns) = consDistinct n (dropRepeats ns) := rfl

theorem mem_dropRepeats {m : Nat} {ns : List Nat} : m ∈ dropRepeats ns ↔ m ∈ ns := by
  induction ns with
  | nil => simp [dropRepeats]
  | cons n ns ih => rw [dropRepeats_cons, mem_consDistinct, ih, List.mem_cons]

/-- An ordered list without repeats rises strictly. -/
theorem pairwise_dropRepeats {ns : List Nat} (h : ns.Pairwise (· ≤ ·)) :
    (dropRepeats ns).Pairwise (· < ·) := by
  induction ns with
  | nil => exact List.Pairwise.nil
  | cons n ns ih =>
      obtain ⟨hfirst, hrest⟩ := List.pairwise_cons.mp h
      have hdropped := ih hrest
      have hle : ∀ m ∈ dropRepeats ns, n ≤ m := fun m hm => hfirst m (mem_dropRepeats.mp hm)
      rw [dropRepeats_cons]
      cases hns : dropRepeats ns with
      | nil => simp [consDistinct]
      | cons k ks =>
          rw [hns] at hdropped hle
          rw [consDistinct]
          split
          · exact hdropped
          · rename_i hne
            have hk : n < k := Nat.lt_of_le_of_ne (hle k List.mem_cons_self) hne
            refine List.pairwise_cons.mpr ⟨?_, hdropped⟩
            intro m hm
            rcases List.mem_cons.mp hm with rfl | hm
            · exact hk
            · exact Nat.lt_trans hk ((List.pairwise_cons.mp hdropped).1 m hm)

namespace BlockConfig

theorem language_sanitize (c : BlockConfig) :
    c.sanitize.language = canonicalLanguage c.language := by
  simp only [sanitize]

/-- **A repair makes a configuration fit for use.** -/
theorem isValid_sanitize (c : BlockConfig) : c.sanitize.isValid = true := by
  have hlanguage : Text.isBlankText c.sanitize.language = false := by
    rw [language_sanitize]
    exact isBlankText_canonicalLanguage c.language
  have hsorted : ((c.highlightLines.filter (0 < ·)).mergeSort (· ≤ ·)).Pairwise
      fun a b => decide (a ≤ b) = true :=
    List.pairwise_mergeSort (by simp; omega) (by simp; omega) _
  have hascending : isAscending c.sanitize.highlightLines = true :=
    isAscending_iff.mpr (pairwise_dropRepeats (by simpa using hsorted))
  have hpositive : ∀ n ∈ c.sanitize.highlightLines, 0 < n := fun n hn => by
    have hmem := List.mem_mergeSort.mp (mem_dropRepeats.mp hn)
    simpa using (List.mem_filter.mp hmem).2
  have hfold : (c.sanitize.fold && c.sanitize.unfold) = false := by
    simp only [sanitize]
    cases c.fold <;> cases c.unfold <;> decide
  have hstart : 1 ≤ c.sanitize.startLine := Nat.le_max_right _ _
  unfold isValid
  rw [hlanguage, hascending, decide_eq_true hstart, hfold]
  simpa using hpositive

theorem isValid_repaired (c : BlockConfig) : c.repaired.isValid = true := by
  unfold repaired
  split
  · assumption
  · exact c.isValid_sanitize

/-- What is fit for use is not repaired. -/
theorem repaired_of_isValid {c : BlockConfig} (h : c.isValid = true) : c.repaired = c :=
  if_pos h

/-- The numbers of a configuration fit into 32 bits. -/
structure InRange (c : BlockConfig) : Prop where
  startLine : c.startLine < Text.bitBound 32
  lines : ∀ n ∈ c.highlightLines, n < Text.bitBound 32

theorem InRange.sanitize {c : BlockConfig} (h : c.InRange) : c.sanitize.InRange where
  startLine := by
    have hbound : 1 < Text.bitBound 32 := by decide
    exact Nat.max_lt.mpr ⟨h.startLine, hbound⟩
  lines n hn := by
    have hmem := List.mem_mergeSort.mp (mem_dropRepeats.mp hn)
    exact h.lines n (List.mem_filter.mp hmem).1

theorem InRange.repaired {c : BlockConfig} (h : c.InRange) : c.repaired.InRange := by
  unfold BlockConfig.repaired
  split
  · exact h
  · exact h.sanitize

end BlockConfig

end CodeFence
