import CodeFence.Text.Numeral

/-!
# Colors

A color is four channels of eight bits.  It is written `#rrggbb`, with two more digits for the
opacity unless the color is opaque.
-/

namespace CodeFence

/-- A color with its opacity. -/
structure Color where
  red : UInt8
  green : UInt8
  blue : UInt8
  alpha : UInt8 := 255
  deriving DecidableEq

/-- Why a text is not a color. -/
inductive ColorError where
  /-- The text has neither six nor eight characters, or one outside ASCII. -/
  | format (text : String)
  /-- Two characters in it are not a hexadecimal number. -/
  | digits
  deriving DecidableEq

/-- The wording of an error. -/
def ColorError.message : ColorError → String
  | .format text => "Invalid color format: " ++ text
  | .digits => "invalid digit found in string"

namespace Color

/-- The channel that two characters denote. -/
def channel? (a b : Char) : Except ColorError UInt8 :=
  match Text.hex? 255 [a, b] with
  | some n => .ok n.toUInt8
  | none => .error .digits

/-- The color that characters denote, without the marks in front. -/
def ofChars : List Char → Except ColorError Color
  | [a, b, c, d, e, f] => do
    return ⟨← channel? a b, ← channel? c d, ← channel? e f, 255⟩
  | [a, b, c, d, e, f, g, h] => do
    return ⟨← channel? a b, ← channel? c d, ← channel? e f, ← channel? g h⟩
  | cs => .error (.format (String.ofList cs))

/-- Reads a color, behind any number of `#` marks. -/
def parse (text : String) : Except ColorError Color :=
  let cs := text.toList.dropWhile (· = '#')
  if cs.all fun c => decide (c.toNat < 128) then ofChars cs
  else .error (.format (String.ofList cs))

/-- The two digits of a channel. -/
def channelDigits (n : UInt8) : List Char :=
  [Nat.digitChar (n.toNat / 16), Nat.digitChar (n.toNat % 16)]

/-- The written form of a color. -/
def toCss (c : Color) : String :=
  String.ofList ('#' :: (channelDigits c.red ++ channelDigits c.green ++ channelDigits c.blue ++
    if c.alpha = 255 then [] else channelDigits c.alpha))

end Color

end CodeFence
