import CodeFence.Yaml.Scalar

/-!
# YAML tokens

A text becomes a row of tokens in which its indentation is spelled out: a token opens each block
collection and another one closes it, and a token stands in front of each key.  That something is a
key shows only at the colon behind it, so the places where a key may have begun are remembered, one
for the block and one for each open bracket.
-/

namespace CodeFence.Yaml

/-- The tokens. -/
inductive Token where
  | scalar (text : String) (isPlain : Bool)
  | openList
  | closeList
  | openRecord
  | closeRecord
  | comma
  /-- The dash in front of an item. -/
  | dash
  /-- Stands in front of a key. -/
  | key
  /-- The colon in front of a value. -/
  | colon
  | beginSequence
  | beginMapping
  /-- Stands behind a block sequence or a block mapping. -/
  | endBlock
  | beginDocument
  | endDocument
  deriving DecidableEq

namespace Token

/-- A place where a key may have begun. -/
structure KeyPlace where
  /-- How many tokens come before. -/
  count : Nat
  place : Place
  /-- Whether nothing but a key can stand there. -/
  isRequired : Bool

/-- The most bytes from the beginning of a key to its colon. -/
def maxKeyLength : Nat := 1024

/-- A text read up to a place. -/
structure Scan where
  cursor : Cursor
  /-- The tokens, latest first. -/
  tokens : List Token := []
  count : Nat := 0
  /-- The columns of the open blocks, innermost first. -/
  columns : List Nat := []
  /-- Where a key may have begun. -/
  keyPlace : Option KeyPlace := none
  /-- The places of possible keys outside the open brackets, innermost first. -/
  outer : List (Option KeyPlace) := []
  /-- Whether a key may begin here. -/
  keyAllowed : Bool := true

namespace Scan

/-- Whether the place is inside brackets. -/
def inFlow (s : Scan) : Bool :=
  !s.outer.isEmpty

/-- The least column of what belongs to the innermost block. -/
def least (s : Scan) : Nat :=
  (s.columns.head?.map (· + 1)).getD 0

/-- Adds a token. -/
def push (token : Token) (s : Scan) : Scan :=
  { s with tokens := token :: s.tokens, count := s.count + 1 }

/-- Adds tokens in front of the one that was the `count`-th to come. -/
def insert (added : List Token) (count : Nat) (s : Scan) : Scan :=
  let behind := s.count - count
  { s with
    tokens := s.tokens.take behind ++ (added.reverse ++ s.tokens.drop behind)
    count := s.count + added.length }

/-- Adds a token that is written with so many characters. -/
def take (token : Token) (width : Nat) (s : Scan) : Scan :=
  { s.push token with cursor := s.cursor.advance width }

/-! ## Blanks -/

/-- Skips blanks, comments and line breaks.  Tabs are not skipped where a key of a block may begin,
and each line may begin with a byte order mark. -/
def skipFrom (inFlow keyAllowed inComment : Bool) (cur : Cursor) : List Char → Cursor × Bool
  | [] => ({ cur with rest := [] }, keyAllowed)
  | c :: rest =>
    let skipTo (keyAllowed inComment : Bool) : Cursor × Bool :=
      skipFrom inFlow keyAllowed inComment ⟨cur.after c, rest⟩ rest
    if isBreak c then skipTo (keyAllowed || !inFlow) false
    else if inComment then skipTo keyAllowed true
    else if c = ' ' || (c = '\t' && (inFlow || !keyAllowed)) then skipTo keyAllowed false
    else if c = '\ufeff' && cur.column = 0 then skipTo keyAllowed false
    else if c = '#' then skipTo keyAllowed true
    else ({ cur with rest := c :: rest }, keyAllowed)

/-- Skips what may stand between two tokens. -/
def skip (s : Scan) : Scan :=
  let (cursor, keyAllowed) := skipFrom s.inFlow s.keyAllowed false s.cursor s.cursor.rest
  { s with cursor, keyAllowed }

/-! ## Blocks and keys -/

/-- Opens a block at a column further right than the innermost one, with its token in front of the
one that was the `count`-th to come. -/
def openBlock (token : Token) (column count : Nat) (s : Scan) : Scan :=
  if !s.inFlow && s.least ≤ column then
    { s.insert [token] count with columns := column :: s.columns }
  else s

/-- Closes the blocks whose columns are not kept. -/
def closeBlocks (isKept : Nat → Bool) (s : Scan) : Scan :=
  if s.inFlow then s
  else
    let closed := s.columns.takeWhile fun column => !isKept column
    closed.foldl (fun s _ => s.push .endBlock)
      { s with columns := s.columns.drop closed.length }

/-- Gives up the place of a possible key, unless nothing but a key can stand there. -/
def dropKey? (s : Scan) : Option Scan :=
  if s.keyPlace.any KeyPlace.isRequired then none else some { s with keyPlace := none }

/-- Gives up the place of a possible key once it is on an earlier line or too far away. -/
def dropStaleKey? (s : Scan) : Option Scan :=
  if s.keyPlace.any fun ⟨_, place, _⟩ =>
      place.line < s.cursor.line || place.bytes + maxKeyLength < s.cursor.bytes then
    s.dropKey?
  else some s

/-- Remembers that a key may begin here. -/
def noteKey? (s : Scan) : Option Scan :=
  if s.keyAllowed then do
    let s ← s.dropKey?
    let isRequired := !s.inFlow && s.columns.head? = some s.cursor.column
    some { s with keyPlace := some ⟨s.count, s.cursor.toPlace, isRequired⟩ }
  else some s

/-! ## The tokens -/

/-- Reads the mark of a document. -/
def documentMark? (token : Token) (s : Scan) : Option Scan := do
  let s ← (s.closeBlocks fun _ => false).dropKey?
  some { s.take token 3 with keyAllowed := false }

/-- Reads an opening bracket, which may begin a key. -/
def bracket? (token : Token) (s : Scan) : Option Scan := do
  let s ← s.noteKey?
  some { s.take token 1 with
    outer := s.keyPlace :: s.outer, keyPlace := none, keyAllowed := true }

/-- Reads a closing bracket.  The whole between the brackets may be a key. -/
def closing? (token : Token) (s : Scan) : Option Scan := do
  let s ← s.dropKey?
  some { s.take token 1 with
    outer := s.outer.tail, keyPlace := s.outer.head?.join, keyAllowed := false }

/-- Reads a comma. -/
def comma? (s : Scan) : Option Scan := do
  let s ← s.dropKey?
  some { s.take .comma 1 with keyAllowed := true }

/-- Opens a block at a mark that stands where a key may begin. -/
def openAt? (token : Token) (s : Scan) : Option Scan :=
  if s.inFlow then some s
  else if s.keyAllowed then some (s.openBlock token s.cursor.column s.count)
  else none

/-- Reads the dash of an item. -/
def dash? (s : Scan) : Option Scan := do
  let s ← s.openAt? .beginSequence
  let s ← s.dropKey?
  some { s.take .dash 1 with keyAllowed := true }

/-- Reads the question mark in front of a key. -/
def question? (s : Scan) : Option Scan := do
  let s ← s.openAt? .beginMapping
  let s ← s.dropKey?
  some { s.take .key 1 with keyAllowed := !s.inFlow }

/-- Reads the colon in front of a value, behind a key or alone. -/
def colon? (s : Scan) : Option Scan :=
  match s.keyPlace with
  | some ⟨count, place, _⟩ =>
    let s := (s.insert [.key] count).openBlock .beginMapping place.column count
    some { s.take .colon 1 with keyPlace := none, keyAllowed := false }
  | none => do
    let s ← s.openAt? .beginMapping
    some { s.take .colon 1 with keyAllowed := !s.inFlow }

/-- Reads a scalar, which may be a key.  A scalar ends where it cannot go on, which may be on a
later line. -/
def scalar? (s : Scan) : Option Scan := do
  let s ← s.noteKey?
  let scalar ← Yaml.scalar? s.inFlow s.least s.cursor
  some { s.push (.scalar (String.ofList scalar.text) scalar.isPlain) with
    cursor := scalar.next, keyAllowed := scalar.endsLine }

/-- Reads the token that begins with a character. -/
def token? (c : Char) (rest : List Char) (s : Scan) : Option Scan :=
  if s.cursor.column = 0 && opensDocument (c :: rest) then s.documentMark? .beginDocument
  else if s.cursor.column = 0 && closesDocument (c :: rest) then s.documentMark? .endDocument
  else
    match c with
    | '[' => s.bracket? .openList
    | ']' => s.closing? .closeList
    | '\x7b' => s.bracket? .openRecord
    | '\x7d' => s.closing? .closeRecord
    | ',' => s.comma?
    | '-' => if endsToken rest then s.dash? else s.scalar?
    | '?' => if s.inFlow || endsToken rest then s.question? else s.scalar?
    | ':' => if s.inFlow || endsToken rest then s.colon? else s.scalar?
    | _ => s.scalar?

/-- The tokens of the rest of a text, behind those that have been read. -/
def finish? : Nat → Scan → Option (List Token)
  | 0, _ => none
  | fuel + 1, s => do
    let s ← s.skip.dropStaleKey?
    match s.cursor.rest with
    | [] =>
      let s ← (s.closeBlocks fun _ => false).dropKey?
      some s.tokens.reverse
    | c :: rest =>
      let column := s.cursor.column
      let s ← (s.closeBlocks fun opened => opened ≤ column).token? c rest
      s.finish? fuel

end Scan

end Token

/-- The tokens of a text, each of which takes a character at least. -/
def tokens? (cs : List Char) : Option (List Token) :=
  Token.Scan.finish? (cs.length + 1) { cursor := { rest := cs } }

end CodeFence.Yaml
