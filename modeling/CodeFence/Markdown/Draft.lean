import CodeFence.Markdown.Inline
import CodeFence.Markdown.Start

/-!
# A document under construction

While a document is read, some of its blocks are open: what is read next may still belong to them.
They form a path from the document down to the innermost one.  A line is led through the path from
the outside in, and each open block takes its mark or its indentation off the line; where one does
not find it, that block and all blocks in it are finished.

A list is loose if a blank line separates two of its items or two blocks of one item.
-/

namespace CodeFence.Markdown

/-- A block whose text has not been read yet. -/
abbrev RawBlock := Block RawText

/-- An open block, with what is finished of it, latest first.  Items stand in lists only, and a list
holds nothing else. -/
inductive Frame where
  | quote (done : List RawBlock)
  | list (mark : ListMark) (isLoose : Bool) (items : List (List RawBlock))
  /-- An item, and how far its text is indented. -/
  | item (indent : Nat) (done : List RawBlock)
  | note (label : List Char) (done : List RawBlock)

namespace Frame

/-- The cursor behind the mark of an open block, if the line goes on with the block.  The space behind
the mark of a quote may be one that is left of a tab in front of it. -/
def follow? (c : Cursor) : Frame → Option Cursor
  | quote _ =>
    let c := (c.readSpaces 3).2
    if c.rest.head? = some '>' then some ((c.skip 1).readSpaces 1).2 else none
  | list _ _ _ => some c
  | item indent _ => indented indent
  | note _ _ => indented 4
where
  /-- The cursor behind the indentation, or at the end of a blank line. -/
  indented (indent : Nat) : Option Cursor :=
    let (count, c) := c.readSpaces indent
    if count = indent ∨ c.rest.isEmpty then some c else none

/-- Whether the text of an open block is indented. -/
def isIndented : Frame → Bool
  | item _ _ | note _ _ => true
  | quote _ | list _ _ _ => false

/-- The open block with one more block in it. -/
def add (b : RawBlock) : Frame → Frame
  | quote done => quote (b :: done)
  | list mark isLoose items => list mark isLoose ([b] :: items)
  | item indent done => item indent (b :: done)
  | note label done => note label (b :: done)

end Frame

/-- A document that has been read in part. -/
structure Draft where
  /-- The blocks that are open, innermost first. -/
  spine : List Frame := []
  /-- The blocks of the document itself that are finished, latest first. -/
  done : List RawBlock := []
  /-- Whether a blank line has been read since the last block. -/
  lastBlank : Bool := false
  /-- Whether an item has begun with a line without text. -/
  isBegun : Bool := false
  /-- The box of a task whose text has not begun. -/
  task : Option Bool := none
  definitions : Definitions := {}

namespace Draft

/-- Adds a block to the innermost open one. -/
def add (b : RawBlock) (d : Draft) : Draft :=
  match d.spine with
  | f :: outer => { d with spine := f.add b :: outer }
  | [] => { d with done := b :: d.done }

/-- Adds an item to the innermost open list. -/
def addItem (blocks : List RawBlock) (d : Draft) : Draft :=
  match d.spine with
  | .list mark isLoose items :: outer =>
    { d with spine := .list mark isLoose (blocks :: items) :: outer }
  | _ => d

/-- The blocks of an item as they count: in a tight list, text is no paragraph. -/
def itemBlocks (isLoose : Bool) (blocks : List RawBlock) : List RawBlock :=
  if isLoose then blocks else blocks.map Block.tighten

/-- Finishes the innermost open block.  Behind a tight list, no item counts as begun. -/
def close (d : Draft) : Draft :=
  match d.spine with
  | [] => d
  | f :: outer =>
    let d := { d with spine := outer }
    match f with
    | .quote done => d.add (.quote done.reverse)
    | .list mark isLoose items =>
      let d := d.add (.list mark.number (items.reverse.map (itemBlocks isLoose)))
      { d with isBegun := d.isBegun && isLoose }
    | .item _ done => d.addItem done.reverse
    | .note label done => d.add (.footnote (String.ofList label) done.reverse)

/-- Finishes all open blocks but the outermost `depth`. -/
def closeTo (depth : Nat) (d : Draft) : Draft :=
  Nat.repeat close (d.spine.length - depth) d

/-- Leads a line through open blocks, outermost first: how many of them it goes on with, and what is
left of it. -/
def followFrames (c : Cursor) : List Frame → Nat × Cursor
  | [] => (0, c)
  | f :: inner =>
    match f.follow? c with
    | some c =>
      let (depth, c) := followFrames c inner
      (depth + 1, c)
    | none => (0, c)

/-- How many open blocks a line goes on with, and what is left of it. -/
def follow (d : Draft) (l : Line) : Nat × Cursor :=
  followFrames (.ofLine l) d.spine.reverse

/-- What is left of a line behind the marks of the open blocks, if it goes on with all of them. -/
def follow? (d : Draft) (l : Line) : Option Cursor :=
  let (depth, c) := d.follow l
  if depth = d.spine.length then some c else none

/-! ## Lists -/

/-- Finishes an item that has begun with two blank lines: it stays empty. -/
def finishItem (d : Draft) : Draft :=
  let d' := match d.spine with
    | .item _ _ :: _ => if d.isBegun && d.lastBlank then d.close else d
    | _ => d
  { d' with isBegun := false }

/-- Finishes a list that has no open item. -/
def closeList (d : Draft) : Draft :=
  match d.spine with
  | .list _ _ _ :: _ => d.close
  | _ => d

/-- Makes the list of the innermost item loose. -/
def loosen (d : Draft) : Draft :=
  match d.spine with
  | f :: .list mark _ items :: outer => { d with spine := f :: .list mark true items :: outer }
  | _ => d

/-- Prepares for a block that is no item of the list that may be open. -/
def finishList (d : Draft) : Draft :=
  let d := d.finishItem.closeList
  if d.lastBlank then { d.loosen with lastBlank := false } else d

/-- Prepares for an item: goes on with the list that is open, if its items have the same mark, and
begins a new one otherwise. -/
def continueList (mark : ListMark) (d : Draft) : Draft :=
  let begin (d : Draft) : Draft :=
    { d with spine := .list mark false [] :: d.spine, lastBlank := false }
  let d := d.finishItem
  match d.spine with
  | [] => begin d
  | .list old isLoose items :: outer =>
    if old.mark = mark.mark then
      { d with spine := .list old (isLoose || d.lastBlank) items :: outer, lastBlank := false }
    else begin d.finishList
  | _ => begin d.finishList

/-- Reads a blank line.  The text of an item that has begun with one need not be indented. -/
def blankLine (d : Draft) : Draft :=
  match d.spine with
  | .quote _ :: _ => d
  | .item indent done :: outer =>
    { d with spine := .item (if d.isBegun then 0 else indent) done :: outer, lastBlank := true }
  | _ => { d with lastBlank := true }

/-! ## Opening blocks -/

/-- Opens a quote. -/
def openQuote (d : Draft) : Draft :=
  let d := d.finishList
  { d with spine := .quote [] :: d.spine }

/-- Opens the text of a footnote.  Footnotes do not stand inside each other. -/
def openNote (label : List Char) (d : Draft) : Draft :=
  let d := d.finishList
  let d := match d.spine with
    | .note _ _ :: _ => d.close
    | _ => d
  { d with spine := .note label [] :: d.spine, definitions := d.definitions.addNote label }

/-- Takes the box of a task, if one stands in front of the text of an item.  A box without text is a
block. -/
def readTask (d : Draft) (c : Cursor) : Draft × Cursor :=
  let boxed := (c.readSpaces 3).2
  match taskBox? boxed.rest with
  | some (isDone, _) =>
    let c := boxed.skip 3
    (if c.isBlank then d.add (.task isDone) else { d with task := some isDone }, c)
  | none => (d, c)

/-- Opens an item, given its mark with its indentation and the cursor behind it.  Its text begins
one to four spaces behind the mark; more than that make it begin with indented code. -/
def openItem (indent : Nat) (mark : ListMark) (c : Cursor) (d : Draft) : Draft × Cursor :=
  let c := (c.readSpaces 1).2
  let (more, inner) := c.readSpaces 4
  let (extra, c) :=
    if c.isBlank then (0, c)
    else if more = 4 then (0, { inner with spaces := inner.spaces + 4 })
    else (more, inner)
  let d := d.continueList mark
  let d := { d with spine := .item (indent + 1 + extra) [] :: d.spine }
  if c.isBlank then (d, c) else d.readTask c

/-- The blocks of the document. -/
def finish (d : Draft) : List RawBlock :=
  (d.closeTo 0).done.reverse

end Draft

end CodeFence.Markdown
