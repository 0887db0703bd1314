import CodeFence.Block.Config

/-!
# Looking for a marked line

The lines to mark are looked up by halving the range in which a line can be.
This finds the line only if the lines rise, as they do in a valid configuration.

* `isAscending_iff` — what the check of a configuration says;
* `bisect_eq` — the place of a number never leaves the range;
* `BlockConfig.isHighlighted_iff` — a valid configuration marks the lines that
  it lists.
-/

namespace CodeFence

/-- Numbers rise throughout if they rise from each one to the next. -/
theorem isAscending_iff {ns : List Nat} : isAscending ns = true ↔ ns.Pairwise (· < ·) := by
  fun_induction isAscending ns with
  | case1 a b rest ih =>
      rw [Bool.and_eq_true, decide_eq_true_eq, ih]
      constructor
      · rintro ⟨hfirst, hrest⟩
        refine List.pairwise_cons.mpr ⟨fun n hn => ?_, hrest⟩
        rcases List.mem_cons.mp hn with rfl | hn
        · exact hfirst
        · exact Nat.lt_trans hfirst ((List.pairwise_cons.mp hrest).1 n hn)
      · intro h
        obtain ⟨hfirst, hrest⟩ := List.pairwise_cons.mp h
        exact ⟨hfirst b List.mem_cons_self, hrest⟩
  | case2 ns hshort =>
      match ns, hshort with
      | [], _ => simp
      | [a], _ => simp
      | a :: b :: rest, hshort => exact (hshort a b rest rfl).elim

/-- In rising values, places come in the order of what they hold. -/
theorem lt_iff_of_pairwise {values : Array Nat} (hsorted : values.toList.Pairwise (· < ·))
    {i j m n : Nat} (hi : values[i]? = some m) (hj : values[j]? = some n) : i < j ↔ m < n := by
  rw [← Array.getElem?_toList] at hi hj
  obtain ⟨hi', rfl⟩ := List.getElem?_eq_some_iff.mp hi
  obtain ⟨hj', rfl⟩ := List.getElem?_eq_some_iff.mp hj
  have hrise := List.pairwise_iff_getElem.mp hsorted
  constructor
  · exact hrise i j hi' hj'
  · intro hlt
    rcases Nat.lt_trichotomy i j with hbefore | rfl | hbehind
    · exact hbefore
    · exact absurd hlt (Nat.lt_irrefl _)
    · exact absurd (hrise j i hj' hi' hbehind) (Nat.lt_asymm hlt)

/-- **Halving the range** ends at the place of a number that lies in it. -/
theorem bisect_eq {values : Array Nat} {n k base size : Nat}
    (hsorted : values.toList.Pairwise (· < ·)) (hk : values[k]? = some n) (hlo : base ≤ k)
    (hhi : k < base + size) (hsize : base + size ≤ values.size) :
    bisect values n base size = k := by
  fun_induction bisect values n base size with
  | case1 base size hone => omega
  | case2 base size hone half mid base' ih =>
      have hmid : values[mid]? = some values[mid] := Array.getElem?_eq_getElem (by omega)
      -- The lower half is kept if the number lies below the middle, the upper one otherwise.
      by_cases hlt : n < values[mid]
      · have hbase : base' = base := by simp [base', hmid, hlt]
        have hbelow : k < mid := (lt_iff_of_pairwise hsorted hk hmid).mpr hlt
        exact ih (by omega) (by omega) (by omega)
      · have hbase : base' = mid := by simp [base', hmid, hlt]
        have habove : ¬ k < mid := mt (lt_iff_of_pairwise hsorted hk hmid).mp hlt
        exact ih (by omega) (by omega) (by omega)

/-- **Looking up a number** in rising ones finds it if it is there. -/
theorem findsLine_iff {values : List Nat} (hsorted : values.Pairwise (· < ·)) {n : Nat} :
    findsLine values n = true ↔ n ∈ values := by
  rw [findsLine, beq_iff_eq]
  constructor
  · intro hfound
    have hmem := Array.mem_of_getElem? hfound
    exact List.mem_toArray.mp hmem
  · intro hmem
    obtain ⟨k, hk⟩ := List.mem_iff_getElem?.mp hmem
    have hplace : values.toArray[k]? = some n := by rw [List.getElem?_toArray, hk]
    obtain ⟨hlt, -⟩ := Array.getElem?_eq_some_iff.mp hplace
    have hrange : k < 0 + values.toArray.size := by rwa [Nat.zero_add]
    rw [bisect_eq hsorted hplace (Nat.zero_le k) hrange (Nat.le_of_eq (Nat.zero_add _)), hplace]

/-- **A valid configuration** marks the lines that it lists. -/
theorem BlockConfig.isHighlighted_iff {c : BlockConfig} (h : c.isValid = true) {line : Nat} :
    c.isHighlighted line = true ↔ line ∈ c.highlightLines := by
  have hascending : isAscending c.highlightLines = true := by
    simp only [isValid, Bool.and_eq_true] at h
    exact h.1.2
  exact findsLine_iff (isAscending_iff.mp hascending)

end CodeFence
