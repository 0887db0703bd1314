import CodeFence.Markdown.Event
import CodeFence.Markdown.Html

/-!
# Writing events as markup

Events are written one after the other.  A writer remembers the table that it is in: how its columns
are aligned, whether it is in the head, and in which column.  An image is described by the text
inside it, so that is collected up to the end of the image, and everything that sets it off is left
out.
-/

namespace CodeFence.Markdown

/-- An image whose description is being collected. -/
structure OpenImage where
  title : String
  /-- How much has been opened and not closed inside. -/
  depth : Nat := 0
  description : String := ""

namespace OpenImage

/-- The image with more description. -/
def add (i : OpenImage) (s : String) : OpenImage :=
  { i with description := i.description ++ s }

/-- The image behind one more event, unless that closes it. -/
def take? (number : String → String) (i : OpenImage) : Event → Option OpenImage
  | .start _ => some { i with depth := i.depth + 1 }
  | .stop _ => if i.depth = 0 then none else some { i with depth := i.depth - 1 }
  | .html _ => some i
  | .text s | .code s | .inlineHtml s => some (i.add s)
  | .softBreak | .hardBreak | .rule => some (i.add " ")
  | .note label => some (i.add ("[" ++ number label ++ "]"))
  | .task isDone => some (i.add (if isDone then "[x]" else "[ ]"))

/-- The parts behind the opening of an image: the description and the title. -/
def parts (i : OpenImage) : List Part :=
  .value i.description :: Inline.titleParts i.title ++ [.markup "\" />"]

end OpenImage

/-- What has to be remembered while events are written. -/
structure Writer where
  alignments : List Alignment := []
  isInHead : Bool := false
  column : Nat := 0
  image : Option OpenImage := none

namespace Writer

/-- The element of a cell. -/
def cellName (w : Writer) : String :=
  if w.isInHead then "th" else "td"

/-- Writes what opens something. -/
def opened (number : String → String) (w : Writer) : Opening → Writer × List Part
  | .paragraph => (w, [.freshLine, .markup "<p>"])
  | .heading level => (w, [.freshLine, .markup ("<h" ++ toString level ++ ">")])
  | .quote => (w, [.freshLine, .markup "<blockquote>\n"])
  | .code kind => (w, Block.codeStart kind.info)
  | .html => (w, [])
  | .list start => (w, [.freshLine, .markup (Block.listStart start)])
  | .item => (w, [.freshLine, .markup "<li>"])
  | .table alignments => ({ w with alignments }, [.markup "<table>"])
  | .tableHead => ({ w with isInHead := true, column := 0 }, [.markup "<thead><tr>"])
  | .tableRow => ({ w with column := 0 }, [.markup "<tr>"])
  | .tableCell => (w, [.markup (Block.cellStart w.cellName w.alignments w.column)])
  | .footnote label => (w, Block.footnoteStart number label)
  | .styled style => (w, [.markup ("<" ++ Inline.styleTag style ++ ">")])
  | .link target => (w, Inline.linkStart target)
  | .image target =>
    ({ w with image := some { title := target.title } }, Inline.imageStart target)

/-- Writes what closes something. -/
def closed (w : Writer) : Closing → Writer × List Part
  | .paragraph => (w, [.markup "</p>\n"])
  | .heading level => (w, [.markup ("</h" ++ toString level ++ ">\n")])
  | .quote => (w, [.markup "</blockquote>\n"])
  | .code => (w, [.markup "</code></pre>\n"])
  | .html => (w, [])
  | .list isOrdered => (w, [.markup (Block.listEnd isOrdered)])
  | .item => (w, [.markup "</li>\n"])
  | .table => (w, [.markup "</tbody></table>\n"])
  | .tableHead => ({ w with isInHead := false }, [.markup "</tr></thead><tbody>\n"])
  | .tableRow => (w, [.markup "</tr>\n"])
  | .tableCell =>
    ({ w with column := w.column + 1 }, [.markup ("</" ++ w.cellName ++ ">")])
  | .footnote => (w, [.markup "</div>\n"])
  | .styled style => (w, [.markup ("</" ++ Inline.styleTag style ++ ">")])
  | .link => (w, [.markup "</a>"])
  | .image => (w, [])

/-- Writes an event that is in no image. -/
def outside (number : String → String) (w : Writer) : Event → Writer × List Part
  | .start opening => w.opened number opening
  | .stop closing => w.closed closing
  | .text s => (w, [.text s])
  | .code s => (w, [.markup "<code>", .text s, .markup "</code>"])
  | .html raw | .inlineHtml raw => (w, [.markup raw])
  | .softBreak => (w, [.markup "\n"])
  | .hardBreak => (w, [.markup "<br />\n"])
  | .rule => (w, [.freshLine, .markup "<hr />\n"])
  | .task isDone => (w, [.markup (Inline.taskMarkup isDone)])
  | .note label => (w, Inline.noteParts number label)

/-- Writes an event that is in an image; nothing is written before the image is closed. -/
def inside (number : String → String) (w : Writer) (i : OpenImage) (e : Event) :
    Writer × List Part :=
  match i.take? number e with
  | some i => ({ w with image := some i }, [])
  | none => ({ w with image := none }, i.parts)

/-- Writes one event. -/
def step (number : String → String) (w : Writer) (e : Event) : Writer × List Part :=
  match w.image with
  | some i => w.inside number i e
  | none => w.outside number e

/-- Writes events one after the other. -/
def run (number : String → String) (w : Writer) : List Event → Writer × List Part
  | [] => (w, [])
  | e :: rest =>
    let (w, front) := w.step number e
    let (w, back) := run number w rest
    (w, front ++ back)

/-- The parts of an image that is not closed. -/
def finish (w : Writer) : List Part :=
  (w.image.map OpenImage.parts).getD []

end Writer

/-- Events as markup. -/
def eventsToHtml (events : List Event) : String :=
  let (w, parts) := Writer.run (noteNumber (events.filterMap Event.label?)) {} events
  Part.write (parts ++ w.finish)

end CodeFence.Markdown
