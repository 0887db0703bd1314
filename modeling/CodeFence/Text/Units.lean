/-!
# Sixteen-bit units

The code units of UTF-16: one for a character of the basic plane, two for any other.
-/

namespace CodeFence.Text

/-- The one or two units that encode a character. -/
def unitsOf (c : Char) : List UInt16 :=
  let n := c.toNat
  if n < 0x10000 then [n.toUInt16]
  else
    let v := n - 0x10000
    [(0xD800 + v / 0x400).toUInt16, (0xDC00 + v % 0x400).toUInt16]

/-- The units that encode a text. -/
def units (cs : List Char) : List UInt16 :=
  cs.flatMap unitsOf

theorem units_cons (c : Char) (cs : List Char) : units (c :: cs) = unitsOf c ++ units cs :=
  List.flatMap_cons

theorem units_append (a b : List Char) : units (a ++ b) = units a ++ units b := by
  simp [units]

end CodeFence.Text
