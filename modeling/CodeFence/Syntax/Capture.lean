/-!
# Captures

What a grammar finds in a source: names for pieces of it, between two places.
-/

namespace CodeFence.Syntax

/-- A place in a source: its row, and its column in bytes. -/
structure Position where
  row : Nat
  byte : Nat
  deriving DecidableEq

/-- The beginning of every source. -/
def Position.origin : Position := ⟨0, 0⟩

/-- The place behind a character. -/
def Position.next (p : Position) (c : Char) : Position :=
  if c = '\n' then ⟨p.row + 1, 0⟩ else ⟨p.row, p.byte + c.utf8Size⟩

/-- The place behind a text. -/
def Position.after (p : Position) (cs : List Char) : Position :=
  cs.foldl next p

/-- A piece of source to which a grammar gives a name. -/
structure Capture where
  name : String
  start : Position
  stop : Position
  deriving DecidableEq

end CodeFence.Syntax
