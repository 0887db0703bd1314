import CodeFence.Markdown.Tree

/-!
# Markdown as events

A document is delivered as a sequence of events.  What is set off is opened and closed around what
it holds, and everything else is an event of its own.  The text of a block of code comes line by
line.
-/

namespace CodeFence.Markdown

/-- How a block of code is set off. -/
inductive CodeKind where
  | fenced (info : String)
  | indented
  deriving DecidableEq

/-- The info string of a block of code. -/
def CodeKind.info : CodeKind → String
  | fenced info => info
  | indented => ""

/-- What is opened. -/
inductive Opening where
  | paragraph
  | heading (level : Nat)
  | quote
  | code (kind : CodeKind)
  | html
  | list (start : Option Nat)
  | item
  | table (alignments : List Alignment)
  | tableHead
  | tableRow
  | tableCell
  | footnote (label : String)
  | styled (style : Style)
  | link (target : Target)
  | image (target : Target)
  deriving DecidableEq

/-- What is closed. -/
inductive Closing where
  | paragraph
  | heading (level : Nat)
  | quote
  | code
  | html
  | list (isOrdered : Bool)
  | item
  | table
  | tableHead
  | tableRow
  | tableCell
  | footnote
  | styled (style : Style)
  | link
  | image
  deriving DecidableEq

/-- What a document is delivered as. -/
inductive Event where
  | start (opening : Opening)
  | stop (closing : Closing)
  | text (value : String)
  /-- Code inside a line. -/
  | code (value : String)
  /-- Markup between blocks. -/
  | html (raw : String)
  /-- Markup inside a line. -/
  | inlineHtml (raw : String)
  | softBreak
  | hardBreak
  | rule
  /-- The box in front of a task. -/
  | task (isDone : Bool)
  /-- A reference to a footnote. -/
  | note (label : String)
  deriving DecidableEq

namespace Event

/-- Events between an opening and a closing one. -/
def around (opening : Opening) (closing : Closing) (inner : List Event) : List Event :=
  start opening :: inner ++ [stop closing]

/-- The label of a footnote that an event mentions. -/
def label? : Event → Option String
  | note label | start (.footnote label) => some label
  | _ => none

end Event

open Event (around)

namespace Inline

mutual

/-- The events of a piece of text. -/
def events : Inline → List Event
  | text s => [.text s]
  | code s => [.code s]
  | html raw => [.inlineHtml raw]
  | softBreak => [.softBreak]
  | hardBreak => [.hardBreak]
  | task isDone => [.task isDone]
  | note label => [.note label]
  | styled style content => around (.styled style) (.styled style) (allEvents content)
  | link target content => around (.link target) .link (allEvents content)
  | image target content => around (.image target) .image (allEvents content)

/-- The events of pieces of text. -/
def allEvents : List Inline → List Event
  | [] => []
  | i :: rest => i.events ++ allEvents rest

end

end Inline

/-- The lines of a text, each with the character that ends it. -/
def linePieces : List Char → List (List Char)
  | [] => []
  | c :: rest =>
    if c = '\n' then [c] :: linePieces rest
    else match linePieces rest with
      | [] => [[c]]
      | line :: lines => (c :: line) :: lines

namespace Block

/-- The events of the cells of a row. -/
def cellEvents (cells : List (List Inline)) : List Event :=
  cells.flatMap fun content => around .tableCell .tableCell (Inline.allEvents content)

mutual

/-- The events of a block. -/
def events : Block (List Inline) → List Event
  | paragraph content => around .paragraph .paragraph (Inline.allEvents content)
  | plain content => Inline.allEvents content
  | heading level content => around (.heading level) (.heading level) (Inline.allEvents content)
  | rule => [.rule]
  | task isDone => [.task isDone]
  | code info s =>
    around (.code (if info.isEmpty then .indented else .fenced info)) .code
      ((linePieces s.toList).map fun line => .text (String.ofList line))
  | html raw => around .html .html [.html raw]
  | quote children => around .quote .quote (allEvents children)
  | list start items => around (.list start) (.list start.isSome) (itemEvents items)
  | table alignments head rows =>
    around (.table alignments) .table
      (around .tableHead .tableHead (cellEvents head) ++
        rows.flatMap fun row => around .tableRow .tableRow (cellEvents row))
  | footnote label children => around (.footnote label) .footnote (allEvents children)

/-- The events of blocks. -/
def allEvents : List (Block (List Inline)) → List Event
  | [] => []
  | b :: rest => b.events ++ allEvents rest

/-- The events of the items of a list. -/
def itemEvents : List (List (Block (List Inline))) → List Event
  | [] => []
  | item :: rest => around .item .item (allEvents item) ++ itemEvents rest

end

end Block

end CodeFence.Markdown
