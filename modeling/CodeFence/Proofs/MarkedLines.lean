import CodeFence.Block.LineSpec

/-!
# The lines that ranges mark

Ranges are put in order and then walked through, each from where the ones
before it have ended.  So the lines come out ascending, each once, and they are
those that some range covers.  Hence neither the order of the ranges nor their
repetition matters.

* `pairwise_mergeSort_comesBefore` — ranges in order begin in order;
* `mem_linesFrom`, `pairwise_linesFrom` — which lines a walk yields, and that
  they rise;
* `mem_union`, `pairwise_union` — so it is with the union of any ranges;
* `union_congr` — the same ranges have the same union.
-/

namespace CodeFence.LineRange

variable {ranges ranges' : List LineRange} {next n : Nat}

/-- The range covers the line. -/
def Covers (r : LineRange) (n : Nat) : Prop :=
  r.first ≤ n ∧ n ≤ r.last

theorem comesBefore_iff {a b : LineRange} :
    comesBefore a b = true ↔ a.first < b.first ∨ a.first = b.first ∧ a.last ≤ b.last := by
  simp [comesBefore]

/-- Ranges in order begin in order. -/
theorem pairwise_mergeSort_comesBefore (ranges : List LineRange) :
    (ranges.mergeSort comesBefore).Pairwise fun a b => a.first ≤ b.first := by
  have htrans : ∀ a b c : LineRange, comesBefore a b = true → comesBefore b c = true →
      comesBefore a c = true := by
    intro a b c hab hbc
    rw [comesBefore_iff] at hab hbc ⊢
    omega
  have htotal : ∀ a b : LineRange, (comesBefore a b || comesBefore b a) = true := by
    intro a b
    rw [Bool.or_eq_true, comesBefore_iff, comesBefore_iff]
    omega
  refine (List.pairwise_mergeSort htrans htotal ranges).imp ?_
  intro a b hab
  rw [comesBefore_iff] at hab
  omega

/-- **Which lines a walk yields**: from its start on, those that a range covers.
What a range skips because the ones before it have ended later, they have
covered. -/
theorem mem_linesFrom (hsorted : ranges.Pairwise fun a b => a.first ≤ b.first) :
    n ∈ linesFrom next ranges ↔ next ≤ n ∧ ∃ r ∈ ranges, r.Covers n := by
  induction ranges generalizing next with
  | nil => simp [linesFrom]
  | cons r rest ih =>
      obtain ⟨hfirst, hrest⟩ := List.pairwise_cons.mp hsorted
      have hhead : n ∈ List.range' (max r.first next) (r.last + 1 - max r.first next) ↔
          next ≤ n ∧ r.Covers n := by
        rw [List.mem_range'_1, Covers]
        omega
      simp only [linesFrom, List.mem_append, hhead, ih hrest, List.mem_cons, exists_eq_or_imp]
      constructor
      · rintro (⟨hnext, hcovers⟩ | ⟨hnext, hlater⟩)
        · exact ⟨hnext, Or.inl hcovers⟩
        · exact ⟨Nat.le_trans (Nat.le_max_left ..) hnext, Or.inr hlater⟩
      · rintro ⟨hnext, hcovers | ⟨r', hr', hcovers⟩⟩
        · exact Or.inl ⟨hnext, hcovers⟩
        · by_cases hended : r.last < n
          · exact Or.inr ⟨Nat.max_le.mpr ⟨hnext, hended⟩, r', hr', hcovers⟩
          · have hbegun := Nat.le_trans (hfirst r' hr') hcovers.1
            exact Or.inl ⟨hnext, hbegun, Nat.not_lt.mp hended⟩

/-- The lines of a walk rise. -/
theorem pairwise_linesFrom (hsorted : ranges.Pairwise fun a b => a.first ≤ b.first) :
    (linesFrom next ranges).Pairwise (· < ·) := by
  induction ranges generalizing next with
  | nil => exact List.Pairwise.nil
  | cons r rest ih =>
      have hrest := (List.pairwise_cons.mp hsorted).2
      rw [linesFrom]
      refine List.pairwise_append.mpr ⟨List.pairwise_lt_range', ih hrest, ?_⟩
      intro n hn m hm
      rw [List.mem_range'_1] at hn
      have hm' := ((mem_linesFrom hrest).mp hm).1
      omega

/-- **The union of ranges** has the lines that one of them covers. -/
theorem mem_union : n ∈ union ranges ↔ 1 ≤ n ∧ ∃ r ∈ ranges, r.Covers n := by
  rw [union, mem_linesFrom (pairwise_mergeSort_comesBefore ranges)]
  simp only [List.mem_mergeSort]

theorem pairwise_union (ranges : List LineRange) : (union ranges).Pairwise (· < ·) :=
  pairwise_linesFrom (pairwise_mergeSort_comesBefore ranges)

/-- **The same ranges have the same union**, in whatever order and however often
they come. -/
theorem union_congr (h : ∀ r, r ∈ ranges ↔ r ∈ ranges') : union ranges = union ranges' := by
  have hnodup : ∀ rs : List LineRange, (union rs).Nodup := fun rs =>
    (pairwise_union rs).imp Nat.ne_of_lt
  have hmem : ∀ n, n ∈ union ranges ↔ n ∈ union ranges' := by
    intro n
    simp only [mem_union, h]
  exact List.Perm.eq_of_pairwise (fun _ _ _ _ hlt hlt' => absurd hlt' (Nat.lt_asymm hlt))
    (pairwise_union ranges) (pairwise_union ranges')
    ((List.perm_ext_iff_of_nodup (hnodup ranges) (hnodup ranges')).mpr hmem)

end CodeFence.LineRange
