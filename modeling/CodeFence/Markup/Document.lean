import CodeFence.Markup.Node

/-!
# Rendered code blocks

A rendered block is a `pre` element that holds one `code` element, and that holds one element for
each line of the source, with a newline between two lines.
-/

namespace CodeFence.Markup

/-- The class of every element that holds a line. -/
def lineClass : String := "line"

/-- The lines in which a source is displayed.  One newline at the end opens no further line, a
carriage return before a newline is dropped, and the empty source has one empty line. -/
def displayLines (code : List Char) : List (List Char) :=
  (Text.splitAt '\n' ((Text.before? ['\n'] code).getD code)).map Text.dropReturn

/-- A rendered code block. -/
structure Document where
  root : Element

/-- Applies `f` to the first element with a tag among the children. -/
def mapFirst (tag : String) (f : Element → Element) : List Node → List Node
  | [] => []
  | n :: rest =>
    match n.element? with
    | some e => if e.tag = tag then (f e).toNode :: rest else n :: mapFirst tag f rest
    | none => n :: mapFirst tag f rest

/-- Applies `f` to every line element, numbered from `i`. -/
def mapLineNodes (f : Nat → Element → Element) (i : Nat) : List Node → List Node
  | [] => []
  | n :: rest =>
    match n.element? with
    | some e =>
      if e.hasClass lineClass then (f i e).toNode :: mapLineNodes f (i + 1) rest
      else n :: mapLineNodes f i rest
    | none => n :: mapLineNodes f i rest

namespace Document

/-- The block whose `code` element holds the given lines, inside the element `pre`. -/
def ofLines (pre : Element) (lines : List Element) : Document :=
  { root := pre.withChild
      (Element.mk "code" [] ((lines.map Element.toNode).intersperse (.text "\n"))).toNode }

/-- The element of one line of unstyled text. -/
def plainLine (line : List Char) : Element :=
  let e : Element := { tag := "span", attrs := [("class", lineClass)] }
  if line.isEmpty then e else e.withChild (.text (String.ofList line))

/-- The block that shows a source without any style. -/
def plain (code : String) : Document :=
  ofLines { tag := "pre", attrs := [("class", "fencelight plain")] }
    ((displayLines code.toList).map plainLine)

/-- The `code` element of a block. -/
def code? (d : Document) : Option Element :=
  d.root.child? "code"

/-- The line elements of a block, in order. -/
def lines (d : Document) : List Element :=
  match d.code? with
  | some code => (code.children.filterMap Node.element?).filter (·.hasClass lineClass)
  | none => []

/-- The block with every line element changed according to its place, counted from zero. -/
def mapLines (d : Document) (f : Nat → Element → Element) : Document :=
  { root := { d.root with
      children := mapFirst "code" (fun code =>
        { code with children := mapLineNodes f 0 code.children }) d.root.children } }

/-- The block with its root element changed. -/
def mapRoot (d : Document) (f : Element → Element) : Document :=
  { root := f d.root }

/-- The written form of a block. -/
def toHtml (d : Document) : String :=
  d.root.toHtml

/-- The written form of what the `code` element holds. -/
def innerCodeHtml (d : Document) : String :=
  match d.code? with
  | some code => code.innerHtml
  | none => ""

/-- Whether a block holds nothing at all. -/
def isEmpty (d : Document) : Bool :=
  d.root.children.isEmpty

end Document

end CodeFence.Markup
