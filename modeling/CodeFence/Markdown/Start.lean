import CodeFence.Markdown.Definition
import CodeFence.Markdown.Glyph
import CodeFence.Markdown.Tag
import CodeFence.Text.Numeral

/-!
# How blocks begin

The first characters of a line, behind its indentation, decide which block it begins.  The readers
here look at what is left of one line.
-/

namespace CodeFence.Markdown

/-- Whether a line is a rule: three or more of one mark, with nothing but blanks between them. -/
def isRule (cs : List Char) : Bool :=
  match cs with
  | c :: _ =>
    (c = '*' || c = '-' || c = '_') && cs.all (fun d => d = c || d = ' ' || d = '\t') &&
      decide (3 ≤ cs.count c)
  | [] => false

/-- The level of the heading that begins here. -/
def headingLevel? (cs : List Char) : Option Nat :=
  let level := (cs.takeWhile (· = '#')).length
  if 1 ≤ level ∧ level ≤ 6 ∧ ((cs.drop level).head?).all isSpace then some level else none

/-- Where the text of a heading ends: before the marks that may close it, and the spaces around
them. -/
def headingLimit (text : List Char) : Nat :=
  let dropEnd (p : Char → Bool) (cs : List Char) : List Char := (cs.reverse.dropWhile p).reverse
  let trimmed := dropEnd (· = ' ') text
  let opened := dropEnd (· = '#') trimmed
  if opened.isEmpty then 0
  else if opened.getLast? = some ' ' then (dropEnd (· = ' ') opened).length
  else trimmed.length

/-- The text of a heading from behind its marks. -/
def headingText (cs : List Char) : RawText :=
  let text := cs.dropWhile isSpace
  { glyphs := Glyph.plainText text, limit := some (headingLimit text) }

/-- The level of the heading that a line makes of the paragraph above it. -/
def underlineLevel? (cs : List Char) : Option Nat :=
  match cs with
  | c :: _ =>
    if (cs.dropWhile (· = c)).all isSpace then
      if c = '=' then some 1 else if c = '-' then some 2 else none
    else none
  | [] => none

/-- A fence: its mark, and how many of them it has. -/
structure Fence where
  mark : Char
  width : Nat
  deriving DecidableEq

/-- The fence that begins here, given the text up to the next newline.  The info string behind
backquotes holds none itself. -/
def fence? (cs : List Char) : Option Fence :=
  match cs with
  | c :: _ =>
    let width := (cs.takeWhile (· = c)).length
    if c = '\x60' then
      if 3 ≤ width ∧ ¬ (cs.drop width).contains c then some ⟨c, width⟩ else none
    else if c = '~' ∧ 3 ≤ width then some ⟨c, width⟩
    else none
  | [] => none

/-- Whether a line closes a fence. -/
def Fence.isClosedBy (f : Fence) (cs : List Char) : Bool :=
  let width := (cs.takeWhile (· = f.mark)).length
  decide (f.width ≤ width) && (cs.drop width).all (· = ' ')

/-- The info string behind a fence, with its escapes and references resolved, given the text up to
the next newline. -/
def Fence.info (f : Fence) (cs : List Char) : String :=
  let trimmed := ((cs.drop f.width).dropWhile isSpace).reverse.dropWhile isAsciiBlank
  String.ofList (unescape trimmed.reverse)

/-- The mark of a list item: the character that is the same for all items of a list, and the number
in front of it if there is one. -/
structure ListMark where
  mark : Char
  number : Option Nat := none
  deriving DecidableEq

/-- The mark of the list item that begins here, and its length. -/
def listMark? (cs : List Char) : Option (ListMark × Nat) :=
  let found : Option (ListMark × Nat) :=
    match cs with
    | c :: _ =>
      if c = '-' ∨ c = '+' ∨ c = '*' then some ({ mark := c }, 1)
      else
        let digits := cs.takeWhile Char.isDigit
        match Text.decimal? digits, cs.drop digits.length with
        | some n, d :: _ =>
          if digits.length ≤ 9 ∧ (d = '.' ∨ d = ')') then
            some ({ mark := d, number := some n }, digits.length + 1)
          else none
        | _, _ => none
    | [] => none
  found.filter fun (_, width) => ((cs.drop width).head?).all fun c => c = ' ' || c = '\t'

/-- The label of the footnote whose text begins here, and what follows its colon.  A blank stretch of
the label has at most so many line ends. -/
def noteStart? (lineEnds : Nat) (cs : List Char) : Option (List Char × List Char) :=
  match cs with
  | '[' :: '^' :: rest =>
    match label? lineEnds rest with
    | some (label, ':' :: rest) => some (label, rest)
    | _ => none
  | _ => none

/-- The box of a task at the beginning of an item, and what follows it. -/
def taskBox? (cs : List Char) : Option (Bool × List Char) :=
  match cs with
  | '[' :: mark :: ']' :: rest =>
    if (rest.head?).any isSpace then
      if isSpace mark then some (false, rest)
      else if mark = 'x' ∨ mark = 'X' then some (true, rest)
      else none
    else none
  | _ => none

/-! ## Tables -/

/-- A row of cells under construction: the alignment of the column so far, whether the column has
begun and has a hyphen, whether there have been pipes and hyphens at all, and the finished columns,
latest first. -/
structure Columns where
  current : Alignment := .none
  hasBegun : Bool := false
  hasHyphen : Bool := false
  sawPipe : Bool := false
  sawHyphen : Bool := false
  done : List Alignment := []

/-- Reads one character of the line below the head of a table. -/
def Columns.step (s : Columns) (c : Char) : Option Columns :=
  match c with
  | ' ' => some s
  | ':' =>
    let current := match s.hasBegun, s.current with
      | false, .none => .left
      | true, .left => .center
      | true, .none => .right
      | _, a => a
    some { s with current, hasBegun := true }
  | '-' => some { s with hasBegun := true, hasHyphen := true, sawHyphen := true }
  | '|' =>
    if s.hasHyphen then
      some { s with current := .none, hasBegun := false, hasHyphen := false, sawPipe := true
                    done := s.current :: s.done }
    else none
  | _ => none

/-- The alignments of the columns, if a line is that below the head of a table. -/
def alignments? (cs : List Char) : Option (List Alignment) := do
  let text := cs.dropWhile (· = ' ')
  guard (cs.length - text.length < 4)
  let (start, text) : Columns × List Char :=
    match text with
    | '|' :: rest => ({ sawPipe := true }, rest)
    | _ => ({}, text)
  let s ← text.foldlM Columns.step start
  guard (s.sawPipe && s.sawHyphen)
  return (if s.hasBegun then s.current :: s.done else s.done).reverse

/-- What follows each pipe of a line that does not stand behind a backslash. -/
def afterPipes (previous : Char) : List Char → List (List Char)
  | [] => []
  | c :: rest =>
    let more := afterPipes c rest
    if c = '|' ∧ previous ≠ '\\' then rest :: more else more

/-- How many columns the head of a table has; a pipe at either end makes none. -/
def columnCount (cs : List Char) : Nat :=
  let pipes := afterPipes ' ' cs
  let leading := if (cs.dropWhile isSpace).head? = some '|' then 1 else 0
  let trailing := if (pipes.getLast?).any (·.all isSpace) then 1 else 0
  pipes.length + 1 - leading - trailing

/-- Whether a line can be the head of a table: there is a pipe in it, and it does not end in an
escaped line end. -/
def mayBeHead (cs : List Char) : Bool :=
  !(afterPipes ' ' cs).isEmpty && (cs.reverse.takeWhile (· = '\\')).length % 2 = 0

/-- Cuts a row at its pipes, with what has been read of a cell, latest first.  A backslash makes the
pipe behind it part of its cell, and does not count itself. -/
def cellsFrom (done : List Glyph) : List Char → List (List Glyph)
  | '\\' :: '|' :: rest => cellsFrom ({ char := '|' } :: ⟨'\\', .escape⟩ :: done) rest
  | '|' :: rest => done.reverse :: cellsFrom [] rest
  | c :: rest => cellsFrom ({ char := c } :: done) rest
  | [] => if done.all fun g => isSpace g.char then [] else [done.reverse]

/-- The cells of a row, without the blanks in front of each of them. -/
def cells (cs : List Char) : List (List Glyph) :=
  let cs := match cs with
    | '|' :: rest => rest
    | _ => cs
  (cellsFrom [] cs).map (·.dropWhile fun g => isSpace g.char)

/-- A row with a certain number of cells: empty ones are added, and those beyond are dropped. -/
def fitCells (count : Nat) (row : List (List Glyph)) : List (List Glyph) :=
  row.take count ++ List.replicate (count - row.length) []

end CodeFence.Markdown
