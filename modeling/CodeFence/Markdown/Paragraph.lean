import CodeFence.Markdown.Draft

/-!
# Where paragraphs end

A paragraph goes on until a line is blank or begins something else.  A line may go on with a paragraph
without the marks of the blocks that the paragraph is in.  The same rules say how far a label, a
definition or a title may reach.
-/

namespace CodeFence.Markdown.Draft

/-- The alignments of a table whose head has these characters, if the next line makes it one. -/
def alignmentsBelow? (d : Draft) (head : List Char) (behind : List Line) :
    Option (List Alignment) := do
  let c ← d.follow? (← behind.head?)
  let alignments ← alignments? c.rest
  guard (alignments.length = columnCount head)
  return alignments

/-- Whether a line begins an item that ends a paragraph.  Such an item is not empty, and a numbered
one begins with one. -/
def startsFilledItem (cs : List Char) : Bool :=
  match listMark? cs with
  | some (mark, width) => mark.number.all (· = 1) && !(cs.drop width).all isSpace
  | none => false

/-- Whether a line ends the paragraph or table above it, because it is blank or begins another block.
Where `anyItem` holds, every list item does. -/
def endsText (anyItem : Bool) (c : Cursor) (behind : List Line) : Bool :=
  let cs := c.rest
  cs.isEmpty || isRule cs || (headingLevel? cs).isSome ||
    (fence? (c.toNewline behind).1).isSome || cs.head? = some '>' ||
    (if anyItem then (listMark? cs).isSome else startsFilledItem cs) ||
    ((Text.after? ['<'] cs).any fun tag => (Tag.blockEnd? tag).isSome || Tag.isBlockTag tag) ||
    (noteStart? 0 cs).isSome

/-- Whether a line ends the paragraph above it; `isInside` tells whether it has the marks of all
blocks that the paragraph is in. -/
def endsParagraph (d : Draft) (isInside : Bool) (c : Cursor) (behind : List Line) : Bool :=
  endsText (!isInside) c behind ||
    (c.rest.head? = some '|' && (d.alignmentsBelow? c.rest behind).isSome)

/-- A line behind another one, as it is written: the end of the line above, the marks of the open
blocks that the line goes on with, and the text.  If the line is not indented far enough for the next
block, what there is of its indentation is part of the text, but not by itself. -/
def continued (d : Draft) (depth : Nat) (endingAbove : List Char) (l : Line) (left : Cursor) :
    List Glyph :=
  let margin := l.text.take (l.text.length - left.rest.length)
  let indent := left.rest.takeWhile isIndent
  let role : Role := if (d.spine.reverse[depth]?).any Frame.isIndented then .shortfall else .plain
  Glyph.plainText endingAbove ++ margin.map (⟨·, .margin⟩) ++ indent.map (⟨·, role⟩) ++
    Glyph.plainText (left.rest.drop indent.length)

/-- The further lines of a paragraph, and the level of the heading that the line behind them makes of
it. -/
def paragraphLines (d : Draft) (ending : List Char) : List Line → List (List Glyph) × Option Nat
  | [] => ([], none)
  | l :: behind =>
    let (depth, c) := d.follow l
    let isInside : Bool := depth = d.spine.length
    let (indent, start) := c.readSpaces 4
    let underline := if indent < 4 ∧ isInside then underlineLevel? start.rest else none
    if underline.isSome then ([], underline)
    else if indent < 4 ∧ d.endsParagraph isInside start behind then ([], none)
    else if c.skipSpaces.rest.isEmpty then ([], none)
    else
      let (lines, underline) := paragraphLines d l.ending behind
      (d.continued depth ending l c :: lines, underline)

/-- A line and those that go on with it as a paragraph, without the marks of the blocks around them;
each line but the last one ends with a newline. -/
def paragraphText (d : Draft) (c : Cursor) (behind : List Line) : List Char :=
  let lines := (d.paragraphLines c.ending behind).1
  withNewlines (c.rest ++ Glyph.chars Glyph.isPlain lines.flatten)

end CodeFence.Markdown.Draft
