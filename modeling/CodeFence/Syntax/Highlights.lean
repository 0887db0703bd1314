import CodeFence.Syntax.Capture
import CodeFence.Syntax.Scope
import CodeFence.Syntax.Spans
import CodeFence.Text.Split

/-!
# From captures to tokens

A grammar reports captures: a name and two positions in the source, each a row and a column in
bytes.  A capture whose name no scope serves is dropped.  The others become tokens, one for each row
that they touch, with columns in characters.
-/

namespace CodeFence.Syntax

/-- The column in characters of a column in bytes.  A column inside a character is the one where the
character starts, and one behind the line is its end. -/
def charColumn (line : List Char) (byte : Nat) : Nat :=
  match line with
  | [] => 0
  | c :: rest => if byte < c.utf8Size then 0 else 1 + charColumn rest (byte - c.utf8Size)

/-- The columns that a capture covers in one row. -/
def columnsIn (c : Capture) (row : Nat) (line : List Char) : Nat × Nat :=
  (if row = c.start.row then charColumn line c.start.byte else 0,
   if row = c.stop.row then charColumn line c.stop.byte else line.length)

/-- The tokens of a capture, with the row of each. -/
def tokensOf (lines : Array (List Char)) (c : Capture) : List (Nat × Token) :=
  match scopeId? c.name with
  | none => []
  | some scope =>
    (List.range' c.start.row (c.stop.row + 1 - c.start.row)).filterMap fun row =>
      let (start, stop) := columnsIn c row (lines[row]?.getD [])
      if start < stop then some (row, ⟨start, stop, scope⟩) else none

/-- The tokens of a source, row by row. -/
structure Highlights where
  tokens : List (Nat × Token) := []

namespace Highlights

/-- The tokens of the captures in a source, in the order of the captures. -/
def ofCaptures (code : List Char) (captures : List Capture) : Highlights :=
  { tokens := captures.flatMap (tokensOf (Text.splitAt '\n' code).toArray) }

/-- Whether one token comes no later than another: the earlier start, then the earlier end. -/
def comesBefore (a b : Token) : Bool :=
  decide (a.start < b.start) || (a.start == b.start && decide (a.stop ≤ b.stop))

/-- The tokens of a row, in order; equal ranges keep the order of their captures. -/
def onRow (h : Highlights) (row : Nat) : List Token :=
  ((h.tokens.filter (·.1 = row)).map Prod.snd).mergeSort comesBefore

end Highlights

end CodeFence.Syntax
