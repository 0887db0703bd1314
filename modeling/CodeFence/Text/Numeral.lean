/-!
# Whole numbers in text

A decimal numeral is a non-empty row of ASCII digits.  A bounded whole number may carry a plus
sign, a signed one either sign, and neither may leave its bounds.
-/

namespace CodeFence.Text

/-- The first number that does not fit into so many bits. -/
def bitBound (bits : Nat) : Nat :=
  Nat.pow 2 bits

/-- The value of a decimal digit. -/
def digitValue? (c : Char) : Option Nat :=
  if c.isDigit then some (c.toNat - '0'.toNat) else none

/-- The value of a hexadecimal digit of either case. -/
def hexValue? (c : Char) : Option Nat :=
  if c.isDigit then some (c.toNat - '0'.toNat)
  else if 'a' ≤ c ∧ c ≤ 'f' then some (c.toNat - 'a'.toNat + 10)
  else if 'A' ≤ c ∧ c ≤ 'F' then some (c.toNat - 'A'.toNat + 10)
  else none

/-- The number that digits of a base denote, after digits that denote `acc`. -/
def readDigits (base : Nat) (value? : Char → Option Nat) (acc : Nat) : List Char → Option Nat
  | [] => some acc
  | c :: rest => (value? c).bind fun d => readDigits base value? (acc * base + d) rest

/-- The number that a non-empty row of digits denotes. -/
def numeral? (base : Nat) (value? : Char → Option Nat) (cs : List Char) : Option Nat :=
  if cs.isEmpty then none else readDigits base value? 0 cs

/-- The number that a row of decimal digits denotes. -/
def decimal? (cs : List Char) : Option Nat :=
  numeral? 10 digitValue? cs

/-- A text without one leading plus sign. -/
def dropPlus : List Char → List Char
  | '+' :: rest => rest
  | cs => cs

/-- A decimal numeral, with or without a plus sign, that is at most `bound`. -/
def whole? (bound : Nat) (cs : List Char) : Option Nat :=
  (decimal? (dropPlus cs)).filter (· ≤ bound)

/-- A decimal numeral with or without a sign, whose number fits into so many bits; the negative
numbers go one further. -/
def integer? (bits : Nat) : List Char → Option Int
  | '-' :: digits => ((decimal? digits).filter (· ≤ bitBound bits)).map fun n => -(n : Int)
  | cs => (whole? (bitBound bits - 1) cs).map Int.ofNat

/-- A hexadecimal numeral, with or without a plus sign, that is at most `bound`. -/
def hex? (bound : Nat) (cs : List Char) : Option Nat :=
  (numeral? 16 hexValue? (dropPlus cs)).filter (· ≤ bound)

/-- The decimal digits of a number. -/
def decimalDigits (n : Nat) : List Char :=
  Nat.toDigits 10 n

/-- A number in at least `width` characters, filled on the left. -/
def padLeft (width : Nat) (fill : Char) (cs : List Char) : List Char :=
  List.replicate (width - cs.length) fill ++ cs

end CodeFence.Text
