/-!
# Intervals of code points

Character classes are kept as lists of closed intervals, lowest first.
-/

namespace CodeFence.Text

/-- Whether `n` lies in one of the closed intervals of a table. -/
def within (table : List (Nat × Nat)) (n : Nat) : Bool :=
  table.any fun (lo, hi) => decide (lo ≤ n) && decide (n ≤ hi)

theorem within_iff {table : List (Nat × Nat)} {n : Nat} :
    within table n = true ↔ ∃ r ∈ table, r.1 ≤ n ∧ n ≤ r.2 := by
  simp [within]

end CodeFence.Text
