import CodeFence.Text.Split

/-!
# Places in a YAML text

A text is read with all its line breaks written as newlines, except the two separators that are
line breaks of their own.  A place knows its line and its column, because the columns tell what
belongs together and a key must end on the line where it began; and it knows the bytes of its line,
which bound the length of a key.
-/

namespace CodeFence.Yaml

/-- Whether a character is a blank of a line. -/
def isSpace (c : Char) : Bool :=
  c = ' ' || c = '\t'

/-- Whether a character ends a line. -/
def isBreak (c : Char) : Bool :=
  c = '\n' || c = '\u2028' || c = '\u2029'

/-- Whether a token may end before the given text: at its end, at a break or at a blank. -/
def endsToken : List Char → Bool
  | [] => true
  | c :: _ => isSpace c || isBreak c

/-- The mark that opens a document. -/
def opensDocument (cs : List Char) : Bool :=
  (Text.after? ['-', '-', '-'] cs).any endsToken

/-- The mark that closes a document. -/
def closesDocument (cs : List Char) : Bool :=
  (Text.after? ['.', '.', '.'] cs).any endsToken

/-- Whether a line that holds `cs` from its first column on is a document mark. -/
def isDocumentMark (cs : List Char) : Bool :=
  opensDocument cs || closesDocument cs

/-- Whether a character has a meaning of its own inside brackets. -/
def isFlowMark (c : Char) : Bool :=
  c = ',' || c = '[' || c = ']' || c = '\x7b' || c = '\x7d'

/-- A place in a text: its line, and how many characters and bytes of the line come before it. -/
structure Place where
  line : Nat := 0
  column : Nat := 0
  bytes : Nat := 0

/-- The place behind a character. -/
def Place.after (place : Place) (c : Char) : Place :=
  if isBreak c then { line := place.line + 1 }
  else { place with column := place.column + 1, bytes := place.bytes + c.utf8Size }

/-- A place with what is left of the text. -/
structure Cursor extends Place where
  rest : List Char

namespace Cursor

/-- The place behind so many characters that take a byte each. -/
def advance (cur : Cursor) (count : Nat) : Cursor :=
  { line := cur.line, column := cur.column + count, bytes := cur.bytes + count
    rest := cur.rest.drop count }

end Cursor

/-! ## The text itself -/

/-- Whether a character may occur in a text at all. -/
def isAllowed (c : Char) : Bool :=
  let n := c.toNat
  n = 0x09 || n = 0x0A || n = 0x0D || (0x20 ≤ n && n ≤ 0x7E) || n = 0x85 ||
    (0xA0 ≤ n && n ≤ 0xD7FF) || (0xE000 ≤ n && n ≤ 0xFFFD) || (0x10000 ≤ n && n ≤ 0x10FFFF)

/-- The text with the usual line breaks written as newlines. -/
def normalizeBreaks : List Char → List Char
  | '\r' :: '\n' :: rest => '\n' :: normalizeBreaks rest
  | c :: rest => (if c = '\r' || c = '\u0085' then '\n' else c) :: normalizeBreaks rest
  | [] => []

end CodeFence.Yaml
