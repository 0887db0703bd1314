/-!
# Colored spans of a line

The tokens of a line may overlap: a string can hold escapes, a key is a string too.  `segments`
flattens them to spans that cover the line once, each as long as can be.  In an overlap the
narrowest token is seen, and of equally narrow ones the first.
-/

namespace CodeFence.Syntax

/-- Columns `start` up to but not including `stop`, and the scope they have. -/
structure Token where
  start : Nat
  stop : Nat
  scope : Nat
  deriving DecidableEq

/-- A span that has one scope, or none. -/
structure Segment where
  start : Nat
  stop : Nat
  scope : Option Nat
  deriving DecidableEq

/-- Whether a column lies in a token. -/
def Token.covers (t : Token) (column : Nat) : Bool :=
  decide (t.start ≤ column) && decide (column < t.stop)

/-- How many columns a token has. -/
def Token.width (t : Token) : Nat :=
  t.stop - t.start

/-- The first token that covers a column, in a list that is sorted by start. -/
def scopeAt? (tokens : List Token) (column : Nat) : Option Nat :=
  match tokens with
  | [] => none
  | t :: rest =>
    if t.covers column then some t.scope
    else if column < t.start then none
    else scopeAt? rest column

/-- The tokens by width, the narrowest first; equally wide ones keep their order. -/
def byWidth (tokens : List Token) : List Token :=
  tokens.mergeSort fun a b => a.width ≤ b.width

/-- Paints a token over the columns of a line, as far as the line goes. -/
def Token.paintOver (t : Token) (scopes : List (Option Nat)) : List (Option Nat) :=
  scopes.mapIdx fun column scope => if t.covers column then some t.scope else scope

/-- The scope of every column of a line.  The tokens are painted one over the other: the widest
first, and of equally wide ones the last first. -/
def paint (tokens : List Token) (length : Nat) : List (Option Nat) :=
  (byWidth tokens).foldr Token.paintOver (List.replicate length none)

/-- Joins neighbouring columns of one scope, from column `start` on. -/
def runs (start : Nat) : List (Option Nat) → List Segment
  | [] => []
  | scope :: rest =>
    match runs (start + 1) rest with
    | s :: segments =>
      if s.scope = scope then { s with start } :: segments
      else ⟨start, start + 1, scope⟩ :: s :: segments
    | [] => [⟨start, start + 1, scope⟩]

/-- The spans of a line of the given length. -/
def segments (tokens : List Token) (length : Nat) : List Segment :=
  runs 0 (paint tokens length)

end CodeFence.Syntax
