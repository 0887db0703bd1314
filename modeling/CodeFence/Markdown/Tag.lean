import CodeFence.Markdown.Line
import CodeFence.Text.Case

/-!
# Markup in Markdown

How tags, comments and the like are written, both inside a line and at the beginning of a block of
markup.  Every reader here takes the text behind a `<` and gives what follows the markup.
-/

namespace CodeFence.Markdown.Tag

/-- Whether a character may stand in a tag name behind its first letter. -/
def isNameChar (c : Char) : Bool :=
  c.isAlphanum || c = '-'

/-- Whether a character may begin an attribute name. -/
def isAttributeStart (c : Char) : Bool :=
  c.isAlpha || c = '_' || c = ':'

/-- Whether a character may stand in an attribute name. -/
def isAttributeChar (c : Char) : Bool :=
  c.isAlphanum || c = '_' || c = '.' || c = ':' || c = '-'

/-- Whether a character may stand in a value without quotes. -/
def isValueChar (c : Char) : Bool :=
  !(isLineEnd c || c = ' ' || c = '"' || c = '\'' || c = '<' || c = '=' || c = '>' || c = '\x60')

/-- What follows a tag name. -/
def afterName? : List Char → Option (List Char)
  | c :: rest => if c.isAlpha then some (rest.dropWhile isNameChar) else none
  | [] => none

/-- What follows an attribute value. -/
def afterValue? : List Char → Option (List Char)
  | [] => none
  | c :: rest =>
    if c = '"' ∨ c = '\'' then
      match rest.dropWhile (· ≠ c) with
      | _ :: rest => some rest
      | [] => none
    else if isValueChar c && !isSpace c then some (rest.dropWhile isValueChar)
    else none

/-- What follows an attribute, whose name has been read, with its value if it has one. -/
def afterAssignment? (isBlank : Char → Bool) (cs : List Char) : Option (List Char) :=
  match cs.dropWhile isBlank with
  | '=' :: rest => afterValue? (rest.dropWhile isBlank)
  | _ => some cs

/-- What follows the attributes of a tag and its end. -/
def afterAttributes? (isBlank : Char → Bool) : Nat → List Char → Option (List Char)
  | 0, _ => none
  | fuel + 1, cs =>
    match cs.dropWhile isBlank with
    | '>' :: rest | '/' :: '>' :: rest => some rest
    | c :: rest =>
      if isAttributeStart c && cs.head?.any isBlank then
        (afterAssignment? isBlank (rest.dropWhile isAttributeChar)).bind
          (afterAttributes? isBlank fuel)
      else none
    | [] => none

/-- What follows the end of a tag that closes an element. -/
def afterEndTag? (cs : List Char) : Option (List Char) :=
  match (afterName? cs).map (·.dropWhile isSpace) with
  | some ('>' :: rest) => some rest
  | _ => none

/-- What follows a tag, in which characters that satisfy `isBlank` may separate the attributes. -/
def after? (isBlank : Char → Bool) (cs : List Char) : Option (List Char) :=
  match cs with
  | '/' :: rest => afterEndTag? rest
  | _ => (afterName? cs).bind fun rest => afterAttributes? isBlank (rest.length + 1) rest

/-- What follows the first occurrence of a text. -/
def afterText? (needle cs : List Char) : Option (List Char) :=
  (Text.cutAround? needle cs).map Prod.snd

/-- What follows a comment that has been opened.  It may be empty, and end with the hyphens with
which it begins. -/
def afterComment? (cs : List Char) : Option (List Char) :=
  match cs with
  | '>' :: rest | '-' :: '>' :: rest => some rest
  | _ => afterText? ['-', '-', '>'] cs

/-- What follows literal data that has been opened.  It goes on up to the first closing bracket; a
row of them and an angle bracket must stand there. -/
def afterData? (cs : List Char) : Option (List Char) :=
  match cs.dropWhile (· ≠ ']') with
  | [] => none
  | brackets => Text.after? ['>'] (brackets.dropWhile (· = ']'))

/-- What follows a comment, an instruction, literal data or a declaration. -/
def afterLiteral? (cs : List Char) : Option (List Char) :=
  match cs with
  | '!' :: '-' :: '-' :: rest => afterComment? rest
  | '!' :: '[' :: 'C' :: 'D' :: 'A' :: 'T' :: 'A' :: '[' :: rest => afterData? rest
  | '!' :: c :: rest => if c.isAlpha then afterText? ['>'] rest else none
  | '?' :: rest => afterText? ['?', '>'] rest
  | _ => none

/-- Tags whose content is taken as it stands up to their end tag. -/
def literalTags : List String :=
  ["pre", "style", "script", "textarea"]

/-- Whether the name of a literal tag ends where this text begins. -/
def endsName (cs : List Char) : Bool :=
  cs.head?.all fun c => isSpace c || c = '>'

/-- The end tag of a literal tag, if that is what begins here. -/
def literalEnd? (cs : List Char) (tag : String) : Option (List Char) :=
  if Text.lowerAscii (cs.take tag.length) = tag.toList ∧ endsName (cs.drop tag.length) then
    some ("</" ++ tag ++ ">").toList
  else none

/-- The text with which a block of markup ends, if one begins here that ends with a text. -/
def blockEnd? (cs : List Char) : Option (List Char) :=
  match literalTags.findSome? (literalEnd? cs) with
  | some closer => some closer
  | none =>
    match cs with
    | '!' :: '-' :: '-' :: _ => some ['-', '-', '>']
    | '?' :: _ => some ['?', '>']
    | '!' :: '[' :: 'C' :: 'D' :: 'A' :: 'T' :: 'A' :: '[' :: _ => some [']', ']', '>']
    | '!' :: c :: _ => if c.isAlpha then some ['>'] else none
    | _ => none

/-- Tags with which a block of markup can begin that ends at a blank line. -/
def blockTags : List String :=
  ["address", "article", "aside", "base", "basefont", "blockquote", "body", "caption", "center",
   "col", "colgroup", "dd", "details", "dialog", "dir", "div", "dl", "dt", "fieldset",
   "figcaption", "figure", "footer", "form", "frame", "frameset", "h1", "h2", "h3", "h4", "h5",
   "h6", "head", "header", "hr", "html", "iframe", "legend", "li", "link", "main", "menu",
   "menuitem", "nav", "noframes", "ol", "optgroup", "option", "p", "param", "search", "section",
   "summary", "table", "tbody", "td", "tfoot", "th", "thead", "title", "tr", "track", "ul"]

/-- Whether a tag of a block begins here. -/
def isBlockTag (cs : List Char) : Bool :=
  let cs := match cs with
    | '/' :: rest => rest
    | _ => cs
  let name := cs.takeWhile Char.isAlphanum
  let rest := cs.drop name.length
  blockTags.contains (String.ofList (Text.lowerAscii name)) &&
    (rest.head?.all (fun c => isIndent c || c = '>') || Text.startsWith ['/', '>'] rest)

/-- Whether a line holds one tag and nothing else. -/
def isLoneTag (cs : List Char) : Bool :=
  ((after? isSpace cs).map fun rest => rest.all isSpace).getD false

end CodeFence.Markdown.Tag
