import CodeFence.Markdown.Tree
import CodeFence.Text.Split

/-!
# Markdown as markup

A document is written in parts.  A part is markup that is written as it stands, or a value of the
document that is escaped as its place requires; so text of the document never becomes markup.  Some
elements begin on a fresh line.  Footnotes are numbered in the order in which they are mentioned.
-/

namespace CodeFence.Markdown

/-- A part of the written form. -/
inductive Part where
  /-- Markup, written as it stands. -/
  | markup (s : String)
  /-- Text between tags. -/
  | text (s : String)
  /-- Text inside an attribute. -/
  | value (s : String)
  /-- An address inside an attribute. -/
  | address (s : String)
  /-- A line end, unless the line has not begun. -/
  | freshLine

namespace Part

/-- How a character is written between tags. -/
def textChar : Char → List Char
  | '&' => ['&', 'a', 'm', 'p', ';']
  | '<' => ['&', 'l', 't', ';']
  | '>' => ['&', 'g', 't', ';']
  | c => [c]

/-- How a character is written inside an attribute. -/
def valueChar : Char → List Char
  | '"' => ['&', 'q', 'u', 'o', 't', ';']
  | '\'' => ['&', '#', '3', '9', ';']
  | c => textChar c

/-- Whether a character of an address is written as it stands. -/
def isAddressChar (c : Char) : Bool :=
  c.isAlphanum || "!#$%()*+,-./:;=?@^_~".toList.contains c

/-- A byte as two hexadecimal digits behind a percent sign. -/
def percent (b : UInt8) : List Char :=
  ['%', (Nat.digitChar (b.toNat / 16)).toUpper, (Nat.digitChar (b.toNat % 16)).toUpper]

/-- How a character of an address is written inside an attribute. -/
def addressChar (c : Char) : List Char :=
  if isAddressChar c then [c]
  else if c = '&' then textChar c
  else if c = '\'' then ['&', '#', 'x', '2', '7', ';']
  else (String.singleton c).toUTF8.toList.flatMap percent

/-- The characters that a part adds to a text that ends with `last`. -/
def chars (last : Option Char) : Part → List Char
  | markup s => s.toList
  | text s => s.toList.flatMap textChar
  | value s => s.toList.flatMap valueChar
  | address s => s.toList.flatMap addressChar
  | freshLine => if last.all (· = '\n') then [] else ['\n']

/-- Writes parts behind a text that ends with `last`. -/
def writeFrom (last : Option Char) : List Part → List (List Char)
  | [] => []
  | p :: rest =>
    let cs := p.chars last
    cs :: writeFrom (cs.getLast?.or last) rest

/-- The text that parts make. -/
def write (parts : List Part) : String :=
  String.ofList (writeFrom none parts).flatten

end Part

/-! ## Footnotes -/

namespace Inline

mutual

/-- The labels of footnotes that a piece of text mentions, in order. -/
def labels : Inline → List String
  | note label => [label]
  | styled _ content | link _ content | image _ content => allLabels content
  | _ => []

/-- The labels of footnotes that pieces of text mention, in order. -/
def allLabels : List Inline → List String
  | [] => []
  | i :: rest => i.labels ++ allLabels rest

end

end Inline

namespace Block

mutual

/-- The labels of footnotes that a block mentions, in order. -/
def labels : Block (List Inline) → List String
  | paragraph content | plain content | heading _ content => Inline.allLabels content
  | quote children => allLabels children
  | list _ items => itemLabels items
  | table _ head rows => (head ++ rows.flatten).flatMap Inline.allLabels
  | footnote label children => label :: allLabels children
  | rule | task _ | code _ _ | html _ => []

/-- The labels of footnotes that blocks mention, in order. -/
def allLabels : List (Block (List Inline)) → List String
  | [] => []
  | b :: rest => b.labels ++ allLabels rest

/-- The labels of footnotes that items mention, in order. -/
def itemLabels : List (List (Block (List Inline))) → List String
  | [] => []
  | item :: rest => allLabels item ++ itemLabels rest

end

end Block

/-- The number of a footnote among all that are mentioned. -/
def noteNumber (labels : List String) (label : String) : String :=
  toString (labels.eraseDups.idxOf label + 1)

/-! ## Text -/

namespace Inline

mutual

/-- A piece of text as it describes an image: without markup of its own. -/
def plainText (number : String → String) : Inline → String
  | text s | code s | html s => s
  | softBreak | hardBreak => " "
  | task isDone => if isDone then "[x]" else "[ ]"
  | note label => "[" ++ number label ++ "]"
  | styled _ content | link _ content | image _ content => allPlainText number content

/-- Pieces of text as they describe an image. -/
def allPlainText (number : String → String) : List Inline → String
  | [] => ""
  | i :: rest => i.plainText number ++ allPlainText number rest

end

/-- The element for a style. -/
def styleTag : Style → String
  | .emphasis => "em"
  | .strong => "strong"
  | .strikethrough => "del"

/-- A title as an attribute behind an open one, if there is one. -/
def titleParts (title : String) : List Part :=
  if title.isEmpty then [] else [.markup "\" title=\"", .value title]

/-- The box of a task. -/
def taskMarkup (isDone : Bool) : String :=
  if isDone then "<input disabled=\"\" type=\"checkbox\" checked=\"\"/>\n"
  else "<input disabled=\"\" type=\"checkbox\"/>\n"

/-- The parts of a reference to a footnote. -/
def noteParts (number : String → String) (label : String) : List Part :=
  [.markup "<sup class=\"footnote-reference\"><a href=\"#", .value label, .markup "\">",
    .text (number label), .markup "</a></sup>"]

/-- The opening tag of a link. -/
def linkStart (target : Target) : List Part :=
  [.markup (if target.isMail then "<a href=\"mailto:" else "<a href=\""), .address target.url] ++
    titleParts target.title ++ [.markup "\">"]

/-- The tag of an image up to its description. -/
def imageStart (target : Target) : List Part :=
  [.markup "<img src=\"", .address target.url, .markup "\" alt=\""]

mutual

/-- The parts of a piece of text. -/
def parts (number : String → String) : Inline → List Part
  | text s => [.text s]
  | code s => [.markup "<code>", .text s, .markup "</code>"]
  | html raw => [.markup raw]
  | softBreak => [.markup "\n"]
  | hardBreak => [.markup "<br />\n"]
  | task isDone => [.markup (taskMarkup isDone)]
  | note label => noteParts number label
  | styled style content =>
    .markup ("<" ++ styleTag style ++ ">") :: allParts number content ++
      [.markup ("</" ++ styleTag style ++ ">")]
  | link target content => linkStart target ++ allParts number content ++ [.markup "</a>"]
  | image target content =>
    imageStart target ++ .value (allPlainText number content) :: titleParts target.title ++
      [.markup "\" />"]

/-- The parts of pieces of text. -/
def allParts (number : String → String) : List Inline → List Part
  | [] => []
  | i :: rest => i.parts number ++ allParts number rest

end

end Inline

/-! ## Blocks -/

namespace Block

/-- The attribute that aligns a cell. -/
def alignmentMarkup : Alignment → String
  | .none => ""
  | .left => " style=\"text-align: left\""
  | .center => " style=\"text-align: center\""
  | .right => " style=\"text-align: right\""

/-- The opening tag of the cell in a column. -/
def cellStart (name : String) (alignments : List Alignment) (column : Nat) : String :=
  "<" ++ name ++ alignmentMarkup (alignments.getD column .none) ++ ">"

/-- The parts of the cells of a row, the first of which is in the given column.  They are elements of
the given name. -/
def rowPartsFrom (number : String → String) (name : String) (alignments : List Alignment)
    (column : Nat) : List (List Inline) → List Part
  | [] => []
  | content :: rest =>
    .markup (cellStart name alignments column) :: Inline.allParts number content ++
      .markup ("</" ++ name ++ ">") :: rowPartsFrom number name alignments (column + 1) rest

/-- The parts of a row of a table, whose cells are elements of the given name. -/
def rowParts (number : String → String) (name : String) (alignments : List Alignment)
    (cells : List (List Inline)) : List Part :=
  rowPartsFrom number name alignments 0 cells

/-- The opening tag of a list. -/
def listStart : Option Nat → String
  | none => "<ul>\n"
  | some 1 => "<ol>\n"
  | some start => "<ol start=\"" ++ toString start ++ "\">\n"

/-- The closing tag of a list. -/
def listEnd (isOrdered : Bool) : String :=
  if isOrdered then "</ol>\n" else "</ul>\n"

/-- The parts in front of the text of a block of code.  The first word of the info string is taken
for the language. -/
def codeStart (info : String) : List Part :=
  match Text.splitAt ' ' info.toList with
  | [] | [] :: _ => [.freshLine, .markup "<pre><code>"]
  | language :: _ =>
    [.freshLine, .markup "<pre><code class=\"language-", .value (String.ofList language),
      .markup "\">"]

/-- The parts in front of the text of a footnote. -/
def footnoteStart (number : String → String) (label : String) : List Part :=
  [.freshLine, .markup "<div class=\"footnote-definition\" id=\"", .value label,
    .markup "\"><sup class=\"footnote-definition-label\">", .text (number label),
    .markup "</sup>"]

mutual

/-- The parts of a block. -/
def parts (number : String → String) : Block (List Inline) → List Part
  | paragraph content =>
    [.freshLine, .markup "<p>"] ++ Inline.allParts number content ++ [.markup "</p>\n"]
  | plain content => Inline.allParts number content
  | heading level content =>
    [.freshLine, .markup ("<h" ++ toString level ++ ">")] ++ Inline.allParts number content ++
      [.markup ("</h" ++ toString level ++ ">\n")]
  | rule => [.freshLine, .markup "<hr />\n"]
  | task isDone => [.markup (Inline.taskMarkup isDone)]
  | code info s => codeStart info ++ [.text s, .markup "</code></pre>\n"]
  | html raw => [.markup raw]
  | quote children =>
    [.freshLine, .markup "<blockquote>\n"] ++ allParts number children ++
      [.markup "</blockquote>\n"]
  | list start items =>
    [.freshLine, .markup (listStart start)] ++ itemParts number items ++
      [.markup (listEnd start.isSome)]
  | table alignments head rows =>
    .markup "<table><thead><tr>" :: rowParts number "th" alignments head ++
      .markup "</tr></thead><tbody>\n" ::
        rows.flatMap (fun row =>
          .markup "<tr>" :: rowParts number "td" alignments row ++ [.markup "</tr>\n"]) ++
      [.markup "</tbody></table>\n"]
  | footnote label children =>
    footnoteStart number label ++ allParts number children ++ [.markup "</div>\n"]

/-- The parts of blocks. -/
def allParts (number : String → String) : List (Block (List Inline)) → List Part
  | [] => []
  | b :: rest => b.parts number ++ allParts number rest

/-- The parts of the items of a list. -/
def itemParts (number : String → String) : List (List (Block (List Inline))) → List Part
  | [] => []
  | item :: rest =>
    [.freshLine, .markup "<li>"] ++ allParts number item ++
      .markup "</li>\n" :: itemParts number rest

end

end Block

/-- A document as markup. -/
def toHtml (document : List (Block (List Inline))) : String :=
  Part.write (Block.allParts (noteNumber (Block.allLabels document)) document)

end CodeFence.Markdown
