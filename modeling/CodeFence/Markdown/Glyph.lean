import CodeFence.Markdown.Line

/-!
# Written text

The text of a block is kept as it is written, with the marks of the blocks around it in front of its
lines.  Most of what reads a text passes over those marks, but comments and the like take everything
as it stands.
-/

namespace CodeFence.Markdown

/-- What a written character is there for. -/
inductive Role where
  /-- It is part of the text. -/
  | plain
  /-- It is part of the marks of a block around the text. -/
  | margin
  /-- It is part of an indentation that is too short for the block around the text.  That is part
  of the text, unless the line ends with it. -/
  | shortfall
  /-- It is a backslash that makes a pipe part of the cell it is in. -/
  | escape
  deriving DecidableEq

/-- A character as it is written. -/
structure Glyph where
  char : Char
  role : Role := .plain

namespace Glyph

/-- The text that plain characters are. -/
def plainText (cs : List Char) : List Glyph :=
  cs.map fun char => { char }

/-- Whether a character is part of the text. -/
def isPlain (g : Glyph) : Bool :=
  g.role = .plain || g.role = .shortfall

/-- Whether a character is not part of the marks of a block around the text. -/
def isInside (g : Glyph) : Bool :=
  g.role ≠ .margin

/-- The characters that satisfy `p`. -/
def chars (p : Glyph → Bool) (gs : List Glyph) : List Char :=
  (gs.filter p).map char

/-- How far the first `n` characters that satisfy `p` reach. -/
def reach (p : Glyph → Bool) : (n : Nat) → List Glyph → Nat
  | 0, _ | _, [] => 0
  | n + 1, g :: rest => (if p g then reach p n rest else reach p (n + 1) rest) + 1

end Glyph

/-- The text of a block. -/
structure RawText where
  /-- The box that stands in front of it. -/
  task : Option Bool := none
  glyphs : List Glyph
  /-- Where the text ends, if that is not where its last part does. -/
  limit : Option Nat := none

end CodeFence.Markdown
