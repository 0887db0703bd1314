import CodeFence.Entries
import CodeFence.Json.Tree

/-!
# JSON values

A value is what a text means: every string has a value, every number lies in the range of a double,
and an object has each key once, in the order of the keys.
-/

namespace CodeFence

/-- A JSON value. -/
inductive Json where
  | null
  | bool (value : Bool)
  | number (value : Json.Number)
  | string (value : String)
  | array (items : List Json)
  | object (entries : List (String × Json))

namespace Json

/-- A number rounded to 53 binary digits; a tie goes to the even neighbour. -/
def roundToDouble (n : Nat) : Nat :=
  let unit := Nat.pow 2 (n.log2 - 52)
  let quotient := n / unit
  let twice := 2 * (n % unit)
  let up := unit < twice || (twice = unit && quotient % 2 = 1)
  (if up then quotient + 1 else quotient) * unit

/-- The greatest power of ten in the range of a double. -/
def maxPower : Nat := 308

/-- Whether a number lies in the range of a double, computed with doubles: the whole number and the
power of ten are rounded first, and so is their product. -/
def Number.isFinite : Number → Bool
  | .natural _ => true
  | .scaled m e =>
    if m = 0 ∨ e < 0 then true
    else if e ≤ maxPower then
      let product := roundToDouble m.natAbs * roundToDouble (Nat.pow 10 e.toNat)
      roundToDouble product < Text.bitBound 1024
    else false

mutual

/-- The value that a text means, if it means one. -/
def ofTree? : Tree → Option Json
  | .null => some .null
  | .bool b => some (.bool b)
  | .number n => if n.isFinite then some (.number n) else none
  | .string s => s.map .string
  | .array items => (itemsOfTrees [] items).map .array
  | .object entries => (entriesOfTrees [] entries).map .object

/-- The values of a row of texts, behind those found so far, latest first. -/
def itemsOfTrees (done : List Json) : List Tree → Option (List Json)
  | [] => some done.reverse
  | t :: rest =>
    match ofTree? t with
    | some v => itemsOfTrees (v :: done) rest
    | none => none

/-- The entries of an object, added to those found so far; the last value of a key counts. -/
def entriesOfTrees (done : List (String × Json)) :
    List (Option String × Tree) → Option (List (String × Json))
  | [] => some done
  | (key?, t) :: rest =>
    match key?, ofTree? t with
    | some key, some v => entriesOfTrees (insertEntry key v done) rest
    | _, _ => none

end

/-- How many arrays and objects may stand inside one another in a text that is read as a value. -/
def maxDepth : Nat := 127

/-- Reads a text as a value. -/
def parse? (text : String) : Option Json :=
  match Tree.parse? text with
  | some t => if t.depth ≤ maxDepth then ofTree? t else none
  | none => none

/-- The entry of an object under a key. -/
def get? (key : String) : Json → Option Json
  | .object entries => entries.lookup key
  | _ => none

end Json

end CodeFence
