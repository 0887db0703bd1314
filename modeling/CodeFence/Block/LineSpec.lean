import CodeFence.Text.Numeral
import CodeFence.Text.Split

/-!
# Line specifications

A specification such as `1,3-5,8` is a list of fragments, each one line or one ascending range of
lines.  A fragment that is neither is rejected without harm to the others.
-/

namespace CodeFence

/-- The lines from `first` to `last`. -/
structure LineRange where
  first : Nat
  last : Nat
  deriving DecidableEq

/-- No line beyond this one can be marked, which also bounds how many can. -/
def maxMarkedLine : Nat := 100000

namespace LineRange

/-- The greatest number that a fragment may hold. -/
def maxNumber : Nat := Text.bitBound 32 - 1

/-- Whether a range is not empty and lies between the first line and the last one allowed. -/
def isSound (r : LineRange) : Bool :=
  decide (0 < r.first) && decide (r.first ≤ r.last) && decide (r.last ≤ maxMarkedLine)

/-- The range that a fragment names: two numbers around its first dash, or one number. -/
def ofFragment? (fragment : List Char) : Option LineRange :=
  let range? : Option LineRange :=
    match Text.cutAround? ['-'] fragment with
    | some (first, last) => do
      return ⟨← Text.whole? maxNumber (Text.trim first), ← Text.whole? maxNumber (Text.trim last)⟩
    | none => (Text.whole? maxNumber fragment).map fun n => ⟨n, n⟩
  range?.filter isSound

/-- Whether one range comes no later than another: the earlier start, then the earlier end. -/
def comesBefore (a b : LineRange) : Bool :=
  decide (a.first < b.first) || (a.first == b.first && decide (a.last ≤ b.last))

/-- The lines from `next` on that ranges in order cover, each once. -/
def linesFrom (next : Nat) : List LineRange → List Nat
  | [] => []
  | r :: rest =>
    let first := max r.first next
    List.range' first (r.last + 1 - first) ++ linesFrom (max next (r.last + 1)) rest

/-- The lines that any of the ranges covers, ascending, each once. -/
def union (ranges : List LineRange) : List Nat :=
  linesFrom 1 (ranges.mergeSort comesBefore)

end LineRange

/-- The fragments of a specification, without the blanks around them; blank ones are dropped. -/
def lineFragments (spec : List Char) : List (List Char) :=
  ((Text.splitAt ',' spec).map Text.trim).filter fun f => !f.isEmpty

end CodeFence
