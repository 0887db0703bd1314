import CodeFence.Markdown.Line
import CodeFence.Markdown.Reference
import CodeFence.Markdown.Tree
import CodeFence.Text.Case

/-!
# Links and their definitions

The parts that links are made of: labels, destinations and titles.  A definition gives a label a
destination and a title; labels are compared without regard to case and to the extent of blanks.
-/

namespace CodeFence.Markdown

/-! ## Labels -/

/-- Reads a label from behind its opening bracket, with what has been read of it, latest first: the
label as it is written, and what follows its closing bracket. -/
def labelFrom? (done : List Char) : List Char → Option (List Char × List Char)
  | [] => none
  | '[' :: _ => none
  | ']' :: rest => some (done.reverse, rest)
  | '\\' :: c :: rest => labelFrom? (c :: '\\' :: done) rest
  | c :: rest => labelFrom? (c :: done) rest

/-- The number of line ends in a text. -/
def lineEndCount : List Char → Nat
  | '\r' :: '\n' :: rest => lineEndCount rest + 1
  | c :: rest => lineEndCount rest + if isLineEnd c then 1 else 0
  | [] => 0

/-- The bytes of a character outside the ASCII range. -/
def wideBytes (c : Char) : Nat :=
  if c.toNat < 0x80 then 0 else c.utf8Size

/-- What a label counts towards the limit of its length.  Escapes and blanks count, and the bytes of
characters outside the ASCII range.  There is no such number if a blank stretch has more than
`lineEnds` line ends. -/
def labelWeight? (lineEnds : Nat) (label : List Char) : Option Nat :=
  match label with
  | [] => some 0
  | '\\' :: c :: rest => (labelWeight? lineEnds rest).map (· + 2 + (wideBytes c - 1))
  | c :: rest =>
    if isAsciiBlank c then
      let more := rest.takeWhile isAsciiBlank
      if lineEnds < lineEndCount (c :: more) then none
      else (labelWeight? lineEnds (rest.drop more.length)).map (· + more.length + 1)
    else (labelWeight? lineEnds rest).map (· + wideBytes c)
termination_by label.length
decreasing_by all_goals simp only [List.length_cons, List.length_drop]; omega

/-- The weight that a label must not reach. -/
def maxLabelWeight : Nat := 1000

/-- The words of a label with one space between two of them. -/
def collapse (label : List Char) : List Char :=
  [' '].intercalate ((Text.splitWhere isAsciiBlank label).filter fun w => !w.isEmpty)

/-- Reads a label from behind its opening bracket, with at most so many line ends in a blank stretch:
the label with its blanks collapsed, and what follows its closing bracket. -/
def label? (lineEnds : Nat) (cs : List Char) : Option (List Char × List Char) :=
  (labelFrom? [] cs).bind fun (label, rest) =>
    if !label.all isAsciiBlank && (labelWeight? lineEnds label).any (· < maxLabelWeight) then
      some (collapse label, rest)
    else none

/-! ## Destinations and titles -/

/-- Reads a destination in angle brackets from behind the first one. -/
def angleDestination? (done : List Char) : List Char → Option (List Char × List Char)
  | [] | '\n' :: _ | '\r' :: _ | '<' :: _ => none
  | '>' :: rest => some (done.reverse, rest)
  | '\\' :: c :: rest =>
    if isAsciiPunctuation c then angleDestination? (c :: '\\' :: done) rest
    else angleDestination? ('\\' :: done) (c :: rest)
  | c :: rest => angleDestination? (c :: done) rest
termination_by cs => cs.length

/-- Reads a destination without angle brackets, in which `depth` parentheses are open and at most
`most` can be.  It ends at a blank or at a parenthesis that closes none of its own. -/
def bareDestination? (most : Nat) (done : List Char) (depth : Nat) :
    List Char → Option (List Char × List Char)
  | '\\' :: c :: rest =>
    if isAsciiPunctuation c then bareDestination? most (c :: '\\' :: done) depth rest
    else bareDestination? most ('\\' :: done) depth (c :: rest)
  | c :: rest =>
    if c.toNat ≤ 0x20 then if depth = 0 then some (done.reverse, c :: rest) else none
    else if c = '(' then
      if depth < most then bareDestination? most (c :: done) (depth + 1) rest else none
    else if c = ')' then
      match depth with
      | 0 => some (done.reverse, c :: rest)
      | depth + 1 => bareDestination? most (c :: done) depth rest
    else bareDestination? most (c :: done) depth rest
  | [] => if depth = 0 then some (done.reverse, []) else none
termination_by cs => cs.length

/-- Reads a destination with at most so many open parentheses. -/
def destination? (most : Nat) (cs : List Char) : Option (List Char × List Char) :=
  match cs with
  | '<' :: rest => angleDestination? [] rest
  | _ => bareDestination? most [] 0 cs

/-- Reads a title from behind its opening mark. -/
def titleFrom? (opener closer : Char) (done : List Char) :
    List Char → Option (List Char × List Char)
  | [] => none
  | '\\' :: c :: rest =>
    if isAsciiPunctuation c then titleFrom? opener closer (c :: '\\' :: done) rest
    else titleFrom? opener closer ('\\' :: done) (c :: rest)
  | c :: rest =>
    if c = closer then some (done.reverse, rest)
    else if c = opener then none
    else titleFrom? opener closer (c :: done) rest
termination_by cs => cs.length

/-- Reads a title between quotes of either kind or parentheses. -/
def title? (cs : List Char) : Option (List Char × List Char) :=
  match cs with
  | '"' :: rest => titleFrom? '"' '"' [] rest
  | '\'' :: rest => titleFrom? '\'' '\'' [] rest
  | '(' :: rest => titleFrom? '(' ')' [] rest
  | _ => none

/-- What follows a line end, if one begins here. -/
def afterLineEnd? : List Char → Option (List Char)
  | '\n' :: rest | '\r' :: '\n' :: rest | '\r' :: rest => some rest
  | _ => none

/-- What follows blanks, among them at most one line end. -/
def skipSeparator (cs : List Char) : List Char :=
  let rest := cs.dropWhile isSpace
  match afterLineEnd? rest with
  | some rest => rest.dropWhile isSpace
  | none => rest

/-- A title as it is kept: the indentation of its further lines is not part of it. -/
def dropIndents (isFresh : Bool) : List Char → List Char
  | [] => []
  | '\n' :: rest => '\n' :: dropIndents true rest
  | '\r' :: '\n' :: rest => '\r' :: '\n' :: dropIndents true rest
  | '\r' :: rest => '\n' :: dropIndents true rest
  | c :: rest =>
    if isFresh && isIndent c then dropIndents true rest else c :: dropIndents false rest

/-- The most open parentheses in the destination of a link. -/
def maxParentheses : Nat := 33

/-- Reads what stands between the parentheses of a link, from behind the first one. -/
def target? (cs : List Char) : Option (Target × List Char) := do
  let (url, rest) ← destination? maxParentheses (skipSeparator cs)
  let rest := skipSeparator rest
  let (title, rest) :=
    match title? rest with
    | some (title, rest) => (title, skipSeparator rest)
    | none => ([], rest)
  match rest with
  | ')' :: rest =>
    return ({ url := String.ofList (unescape url)
              title := String.ofList (resolve (dropIndents false title)) }, rest)
  | _ => none

/-! ## Definitions -/

/-- What labels stand for.  A label that is defined twice stands for what it was given first. -/
structure Definitions where
  links : List (List Char × Target) := []
  /-- The labels of footnotes. -/
  notes : List (List Char) := []

namespace Definitions

/-- A label as it counts in comparisons. -/
def key (label : List Char) : List Char :=
  Text.fold label

/-- What a label of a link stands for. -/
def link? (d : Definitions) (label : List Char) : Option Target :=
  d.links.lookup (key label)

/-- Whether there is a footnote with a label. -/
def hasNote (d : Definitions) (label : List Char) : Bool :=
  d.notes.contains (key label)

/-- The definitions with one more, unless the label has one. -/
def addLink (d : Definitions) (label : List Char) (target : Target) : Definitions :=
  if (d.link? label).isSome then d else { d with links := d.links ++ [(key label, target)] }

/-- The definitions with one more footnote. -/
def addNote (d : Definitions) (label : List Char) : Definitions :=
  { d with notes := key label :: d.notes }

end Definitions

/-- A text with a newline at the end of each line, whichever way it was written. -/
def withNewlines : List Char → List Char
  | '\r' :: '\n' :: rest | '\r' :: rest => '\n' :: withNewlines rest
  | c :: rest => c :: withNewlines rest
  | [] => []

/-- What follows the rest of a line if that is blank. -/
def afterBlankLine? (cs : List Char) : Option (List Char) :=
  match cs.dropWhile isSpace with
  | [] => some []
  | '\n' :: rest => some rest
  | _ => none

/-- Reads the title of a definition and the end of its line.  A title that does not end its line is
none, and belongs to what follows if it stands on a line of its own. -/
def definitionTitle? (behindUrl : List Char) : Option (List Char × List Char) :=
  let start := skipSeparator behindUrl
  let titled := do
    guard (behindUrl.head?.any isAsciiBlank)
    let (title, rest) ← title? start
    return (title, ← afterBlankLine? rest)
  titled.or ((afterBlankLine? behindUrl).map fun rest => ([], rest))

/-- The most open parentheses in the destination of a definition. -/
def maxDefinitionParentheses : Nat := 2

/-- Reads a definition at the beginning of a text whose lines end with newlines: its label, what it
stands for, and the rest of the text. -/
def definition? (cs : List Char) : Option (List Char × Target × List Char) := do
  let rest ← Text.after? ['['] cs
  let (label, rest) ← label? 1 rest
  let rest ← Text.after? [':'] rest
  let start := skipSeparator rest
  let (url, behindUrl) ← destination? maxDefinitionParentheses start
  guard (start.head? = some '<' || !url.isEmpty)
  let (title, rest) ← definitionTitle? behindUrl
  return (label, { url := String.ofList (unescape url)
                   title := String.ofList (unescape (dropIndents false title)) }, rest)

end CodeFence.Markdown
