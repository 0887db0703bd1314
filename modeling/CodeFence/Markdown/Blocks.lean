import CodeFence.Markdown.Inline
import CodeFence.Markdown.Paragraph

/-!
# The blocks of a document

A document is read block by block.  Each line is led through the open blocks first and may then open
more of them; what is left of it begins a block that holds text, and that block takes as many of the
following lines as belong to it.
-/

namespace CodeFence.Markdown

namespace Draft

/-! ## Blocks that hold others -/

/-- Opens the text of a footnote, if its label begins here: the draft, what is left of the line in
which the label ends, and how many of the lines behind this one that takes. -/
def openNote? (d : Draft) (c : Cursor) (behind : List Line) : Option (Draft × Cursor × Nat) :=
  if Text.startsWith ['[', '^'] c.rest then
    let text := d.paragraphText c behind
    (noteStart? 1 text).map fun (label, left) =>
      let used := text.count '\n' - left.count '\n'
      let ending := match used with
        | 0 => c.ending
        | used + 1 => (behind[used]?.map Line.ending).getD []
      (d.openNote label, { rest := (left.takeWhile (· ≠ '\n')).dropWhile isSpace, ending }, used)
  else none

/-- Opens the block that begins here, if it is one that holds others. -/
def open? (d : Draft) (c : Cursor) (behind : List Line) : Option (Draft × Cursor × Nat) :=
  let (indent, c) := c.readSpaces 4
  if indent = 4 then none
  else
    (d.openNote? c behind).or <|
      match listMark? c.rest with
      | some (mark, width) =>
        if isRule c.rest then none
        else
          let (d, c) := d.openItem (indent + width) mark (c.skip width)
          some (d, c, 0)
      | none =>
        if c.rest.head? = some '>' then some (d.openQuote, ((c.skip 1).readSpaces 1).2, 0)
        else none

/-- Opens all blocks that begin here and hold others: whether there are any, the draft, what is left
of the line, and how many of the lines behind it have been read. -/
def openAll (d : Draft) (c : Cursor) (behind : List Line) : Bool × Draft × Cursor × Nat :=
  match d.open? c behind with
  | some (d, left, used) =>
    if left.extent (behind.drop used) < c.extent behind then
      let (_, d, left, more) := openAll d left (behind.drop used)
      (true, d, left, used + more)
    else (true, d, left, used)
  | none => (false, d, c, 0)
termination_by c.extent behind

/-! ## Further lines of blocks

The readers below take the lines behind the first one of a block.  They give what belongs to the
block, and how many lines that takes. -/

/-- The lines of fenced code.  The line that closes the fence has been read, too. -/
def fencedLines (d : Draft) (f : Fence) (indent : Nat) (lines : List Line) :
    List (List Char) × Nat :=
  match lines with
  | [] => ([], 0)
  | l :: behind =>
    match d.follow? l with
    | none => ([], 0)
    | some c =>
      let c := (c.readSpaces indent).2
      let (more, inner) := c.readSpaces (4 - indent)
      if more < 4 - indent ∧ (inner.isEnd ∨ f.isClosedBy inner.rest) then ([], 1)
      else
        let (line, used) := c.codeLine behind
        let (lines, count) := fencedLines d f indent (behind.drop used)
        (line :: lines, used + 1 + count)
termination_by lines.length
decreasing_by simp only [List.length_drop, List.length_cons]; omega

/-- The lines of indented code, and whether each of them is blank. -/
def indentedLines (d : Draft) (lines : List Line) : List (List Char × Bool) × Nat :=
  match lines with
  | [] => ([], 0)
  | l :: behind =>
    match d.follow? l with
    | none => ([], 0)
    | some c =>
      let (indent, c) := c.readSpaces 4
      if (indent = 4 ∨ c.rest.isEmpty) ∧ !c.isEnd then
        let (line, used) := c.codeLine behind
        let (lines, count) := indentedLines d (behind.drop used)
        ((line, c.isBlank) :: lines, used + 1 + count)
      else ([], 0)
termination_by lines.length
decreasing_by simp only [List.length_drop, List.length_cons]; omega

/-- The lines of markup that goes on up to a line in which the text `closer` occurs; `current` is the
line above. -/
def markupLinesTo (d : Draft) (closer current : List Char) (lines : List Line) :
    List (List Char) × Nat :=
  match lines with
  | [] => ([], 0)
  | l :: behind =>
    match d.follow? l with
    | none => ([], 0)
    | some c =>
      if c.isEnd || Text.contains closer current then ([], 0)
      else
        let (line, used) := c.codeLine behind
        let (lines, count) := markupLinesTo d closer line (behind.drop used)
        (line :: lines, used + 1 + count)
termination_by lines.length
decreasing_by simp only [List.length_drop, List.length_cons]; omega

/-- The lines of markup that goes on up to a blank line. -/
def markupLines (d : Draft) (lines : List Line) : List (List Char) × Nat :=
  match lines with
  | [] => ([], 0)
  | l :: behind =>
    match d.follow? l with
    | none => ([], 0)
    | some c =>
      if c.isBlank then ([], 0)
      else
        let (line, used) := c.codeLine behind
        let (lines, count) := markupLines d (behind.drop used)
        (line :: lines, used + 1 + count)
termination_by lines.length
decreasing_by simp only [List.length_drop, List.length_cons]; omega

/-- The rows of a table. -/
def tableRows (d : Draft) : List Line → List (List (List Glyph))
  | [] => []
  | l :: behind =>
    match d.follow? l with
    | none => []
    | some c =>
      let c := c.skipSpaces
      if endsText true c behind then []
      else
        match cells c.rest with
        | [] => []
        | row => row :: tableRows d behind

/-! ## Blocks of text

Each reader takes what is left of the first line of a block, and the lines behind it.  It gives the
draft with the block, and how many of those lines belong to the block. -/

/-- Reads fenced code. -/
def readFenced (d : Draft) (f : Fence) (indent : Nat) (c : Cursor) (behind : List Line) :
    Draft × Nat :=
  let (text, used) := c.toNewline behind
  let (lines, count) := d.fencedLines f indent (behind.drop used)
  (d.add (.code (f.info text) (String.ofList lines.flatten)), used + count)

/-- Reads indented code.  Blank lines at its end are not part of it. -/
def readIndented (d : Draft) (c : Cursor) (behind : List Line) : Draft × Nat :=
  let (text, used) := c.codeLine behind
  let (more, count) := d.indentedLines (behind.drop used)
  let lines := (text, false) :: more
  let kept := (lines.reverse.dropWhile Prod.snd).reverse.map Prod.fst
  let d := { d with lastBlank := (lines.getLast?).any Prod.snd }
  (d.add (.code "" (String.ofList kept.flatten)), used + count)

/-- Reads a block of markup behind so many spaces. -/
def readMarkup (d : Draft) (closer : Option (List Char)) (indent : Nat) (c : Cursor)
    (behind : List Line) : Draft × Nat :=
  let (text, used) := c.codeLine behind
  let behind := behind.drop used
  let (lines, count) := match closer with
    | some closer => d.markupLinesTo closer text behind
    | none => d.markupLines behind
  let raw := List.replicate indent ' ' ++ (text :: lines).flatten
  (d.add (.html (String.ofList raw)), used + count)

/-- Reads a table. -/
def readTable (d : Draft) (alignments : List Alignment) (head : List Char) (behind : List Line) :
    Draft × Nat :=
  let row (cells : List (List Glyph)) : List RawText :=
    (fitCells alignments.length cells).map fun glyphs => { glyphs }
  let rows := d.tableRows (behind.drop 1)
  let d := { d with task := none }
  (d.add (.table alignments (row (cells head)) (rows.map row)), rows.length + 1)

/-- Reads a paragraph, a heading whose mark is the line below it, or a table.  The glyphs are those of
its first line, with the indentation. -/
def readParagraph (d : Draft) (glyphs : List Glyph) (c : Cursor) (behind : List Line) :
    Draft × Nat :=
  match if mayBeHead c.rest then d.alignmentsBelow? c.rest behind else none with
  | some alignments => d.readTable alignments c.rest behind
  | none =>
    let (lines, underline) := d.paragraphLines c.ending behind
    let raw : RawText := { task := d.task, glyphs := glyphs ++ lines.flatten }
    let block := match underline with
      | some level => Block.heading level raw
      | none => .paragraph raw
    ({ d with task := none }.add block, lines.length + underline.toList.length)

/-- Reads definitions and the paragraph behind them, if there is one.  A definition is taken like the
beginning of a paragraph: a line goes on with it unless it would end a paragraph, and is a paragraph
then whatever else it could begin. -/
def readProse (d : Draft) (glyphs : List Glyph) (c : Cursor) (behind : List Line) : Draft × Nat :=
  let text := if c.rest.head? = some '[' then d.paragraphText c behind else []
  match definition? text with
  | none => d.readParagraph glyphs c behind
  | some (label, target, left) =>
    let d := { d with definitions := d.definitions.addLink label target }
    let used := text.count '\n' - if left.isEmpty then 0 else left.count '\n' + 1
    match _ : behind.drop used with
    | [] => (d, used)
    | l :: rest =>
      let (depth, c) := d.follow l
      let (indent, start) := c.readSpaces 4
      if indent < 4 ∧ d.endsParagraph (depth = d.spine.length) start rest then (d, used)
      else
        let (d, count) := readProse d (d.continued depth [] l c) c.skipSpaces rest
        (d, used + 1 + count)
termination_by behind.length
decreasing_by
  next h _ =>
    have := congrArg List.length h
    simp only [List.length_drop, List.length_cons] at this
    omega

/-- Whether a block of markup begins behind a `<`, and the text that ends it if there is one. -/
def markupStart? (tag : List Char) : Option (Option (List Char)) :=
  match Tag.blockEnd? tag with
  | some closer => some (some closer)
  | none => if Tag.isBlockTag tag || Tag.isLoneTag tag then some none else none

/-- Reads a block that holds text. -/
def readText (d : Draft) (c : Cursor) (behind : List Line) : Draft × Nat :=
  let d := d.finishList
  let (indent, c) := c.readSpaces 4
  let cs := c.rest
  if indent = 4 then d.readIndented c behind
  else if let some closer := (Text.after? ['<'] cs).bind markupStart? then
    d.readMarkup closer indent c behind
  else if isRule cs then (d.add .rule, 0)
  else if let some level := headingLevel? cs then
    (d.add (.heading level (headingText (cs.drop level))), 0)
  else if let some f := fence? (c.toNewline behind).1 then d.readFenced f indent c behind
  else d.readProse (Glyph.plainText cs) c behind

/-- Reads a line and those that belong to the same block: the draft behind them, and how many further
lines there were. -/
def readLine (d : Draft) (l : Line) (behind : List Line) : Draft × Nat :=
  let (depth, c) := d.follow l
  let (hasOpened, d, c, used) := (d.closeTo depth).openAll c behind
  if c.isBlank then
    match hasOpened, d.spine with
    | true, .item _ _ :: _ => ({ d with isBegun := true }, used)
    | _, _ => (d.blankLine, used)
  else
    let (d, count) := d.readText c (behind.drop used)
    (d, used + count)

/-- Reads all lines. -/
def read (d : Draft) : List Line → Draft
  | [] => d
  | l :: rest =>
    let (d, count) := d.readLine l rest
    read d (rest.drop count)
termination_by lines => lines.length
decreasing_by
  simp only [List.length_drop, List.length_cons]
  omega

end Draft

/-- How much may be copied from definitions in any document, in bytes. -/
def leastBudget : Nat := 100000

/-- The document that a text is.  What is copied from definitions may be as long as the text, or as
the least limit for any document. -/
def parse (text : String) : List (Block (List Inline)) :=
  let d := ({} : Draft).read (linesOf text.toList)
  (Block.mapAllM (readInline d.definitions) d.finish (max text.utf8ByteSize leastBudget)).1

end CodeFence.Markdown
