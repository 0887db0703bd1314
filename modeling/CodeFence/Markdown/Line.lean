import CodeFence.Text.Split

/-!
# Lines

A document is read line by line, and a line from left to right.  What is still to be read of a line
is a cursor; a tab counts for as many spaces as it takes to reach the next multiple of four, and can
be read in part.

A carriage return ends a line, with or without a newline behind it.  In code and in markup only a
newline does, so there a line can go on in those that follow it.
-/

namespace CodeFence.Markdown

/-- A line, and the one or two characters that end it.  Only the last line can have none. -/
structure Line where
  text : List Char
  ending : List Char := []
  deriving DecidableEq

/-- The characters of a blank stretch inside a line. -/
def isSpace (c : Char) : Bool :=
  c = ' ' || c = '\t' || c = '\x0b' || c = '\x0c'

/-- The characters that end lines. -/
def isLineEnd (c : Char) : Bool :=
  c = '\n' || c = '\r'

/-- The characters of a blank stretch, line ends included. -/
def isAsciiBlank (c : Char) : Bool :=
  isSpace c || isLineEnd c

/-- The characters of an indentation. -/
def isIndent (c : Char) : Bool :=
  c = ' ' || c = '\t'

/-- Puts one more character in front of the lines that follow it. -/
def consChar (c : Char) (lines : List Line) : List Line :=
  match c, lines with
  | '\n', _ => ⟨[], ['\n']⟩ :: lines
  | '\r', ⟨[], ['\n']⟩ :: rest => ⟨[], ['\r', '\n']⟩ :: rest
  | '\r', _ => ⟨[], ['\r']⟩ :: lines
  | c, l :: rest => { l with text := c :: l.text } :: rest
  | c, [] => [⟨[c], []⟩]

/-- The lines of a document. -/
def linesOf (cs : List Char) : List Line :=
  cs.foldr consChar []

/-- A text and its line end up to the next newline, and how many of the lines behind it that
takes. -/
def toNewline (text ending : List Char) : List Line → List Char × Nat
  | [] => (text ++ ending, 0)
  | l :: rest =>
    if ending = ['\r'] then
      let (more, count) := toNewline l.text l.ending rest
      (text ++ '\r' :: more, count + 1)
    else (text ++ ending, 0)

/-- A line of code as it counts: a carriage return in front of its last character is dropped, so
that each line ends with one newline, whichever way it was written. -/
def tidyCode (cs : List Char) : List Char :=
  match cs.reverse with
  | last :: '\r' :: before => if last.toNat < 0x80 then (last :: before).reverse else cs
  | _ => cs

/-- What is still to be read of a line: the spaces left of a tab, the rest from a column on, and the
end of the line. -/
structure Cursor where
  spaces : Nat := 0
  rest : List Char
  column : Nat := 0
  ending : List Char := []

namespace Cursor

/-- The cursor at the beginning of a line. -/
def ofLine (l : Line) : Cursor :=
  { rest := l.text, ending := l.ending }

/-- The cursor behind a number of characters. -/
def skip (c : Cursor) (count : Nat) : Cursor :=
  { c with rest := c.rest.drop count, column := c.column + count }

/-- Reads at most `n` spaces, and says how many there were. -/
def readSpaces (n : Nat) (c : Cursor) : Nat × Cursor :=
  match n with
  | 0 => (0, c)
  | n + 1 =>
    let one (c : Cursor) : Nat × Cursor :=
      let (count, c) := readSpaces n c
      (count + 1, c)
    match c.spaces, c.rest with
    | spaces + 1, _ => one { c with spaces }
    | 0, ' ' :: rest => one { c with rest, column := c.column + 1 }
    | 0, '\t' :: rest =>
      let width := 4 - c.column % 4
      one { c with spaces := width - 1, rest, column := c.column + width }
    | 0, _ => (0, c)

/-- The cursor behind all spaces and tabs. -/
def skipSpaces (c : Cursor) : Cursor :=
  { c with spaces := 0, rest := c.rest.dropWhile isIndent }

/-- Whether nothing but a blank stretch is left. -/
def isBlank (c : Cursor) : Bool :=
  c.rest.all isSpace

/-- Whether nothing at all is left, of the line and of the document. -/
def isEnd (c : Cursor) : Bool :=
  c.rest.isEmpty && c.ending.isEmpty

/-- How many characters are left of a line and of those behind it, each with its end. -/
def extent (c : Cursor) (behind : List Line) : Nat :=
  behind.foldr (fun l count => l.text.length + 1 + count) c.rest.length

/-- What is left up to the next newline, and how many of the lines behind it that takes. -/
def toNewline (c : Cursor) (behind : List Line) : List Char × Nat :=
  Markdown.toNewline c.rest c.ending behind

/-- What is left up to the next newline as a line of code, and how many of the lines behind it that
takes. -/
def codeLine (c : Cursor) (behind : List Line) : List Char × Nat :=
  let (text, count) := c.toNewline behind
  (List.replicate c.spaces ' ' ++ tidyCode text, count)

end Cursor

end CodeFence.Markdown
