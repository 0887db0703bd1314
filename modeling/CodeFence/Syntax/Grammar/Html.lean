import CodeFence.Syntax.Grammar.Html.Element
import CodeFence.Syntax.Lexeme
import CodeFence.Text.Case
import CodeFence.Text.Numeral

/-!
# The grammar of HTML

Tags with their attributes, comments and the document type, between text that has no name of its
own.  What a script or a style sheet holds is text up to the end tag.  The name of an end tag counts
only if the innermost open element has that name.

Where something does not belong, the marks of tags are still found: in text up to the next tag or
reference, in a tag up to its end.
-/

namespace CodeFence.Syntax.HtmlGrammar

/-- Where a lexeme begins. -/
inductive Place where
  | text
  /-- In text behind something that does not belong there. -/
  | lostText
  /-- In a script or a style sheet. -/
  | rawText
  /-- Where the name of a start tag is expected. -/
  | startName
  /-- Where the name of an end tag is expected. -/
  | endName
  /-- In a start tag behind its name, and whether the name of an attribute was last. -/
  | startTag (behindAttribute : Bool)
  /-- Behind the equals sign of an attribute. -/
  | value
  /-- In a start tag behind something that does not belong there. -/
  | lostTag
  /-- In an end tag behind its name. -/
  | endTag

/-- A place, and the names of the open elements, innermost first. -/
structure Context where
  place : Place
  names : List String := []

/-- The kinds of lexemes. -/
inductive Kind where
  | plain
  | comment
  | doctype
  | bracket
  | tag
  | attribute
  | operator
  | value
  | quotedValue
  deriving DecidableEq

/-- Whether a character is a blank of the grammar. -/
def isSpace (c : Char) : Bool :=
  c = ' ' || (decide (0x09 ≤ c.toNat) && decide (c.toNat ≤ 0x0D))

/-- Whether a character may stand in a tag name. -/
def isTagChar (c : Char) : Bool :=
  c.isAlphanum || c = '-' || c = ':'

/-- Whether a character may stand in an unquoted value. -/
def isValueChar (c : Char) : Bool :=
  !(c = '<' || c = '>' || c = '"' || c = '\'' || c = '=' || isSpace c)

/-- Whether a character may stand in an attribute name. -/
def isAttributeChar (c : Char) : Bool :=
  isValueChar c && c ≠ '/'

/-- The tag name at the beginning of a text, in lower case. -/
def tagName (cs : List Char) : String :=
  String.ofList (Text.lowerAscii (cs.takeWhile isTagChar))

/-! ## Text -/

/-- How far raw text goes before its end tag, of which `left` has not been seen.  The beginning of
the tag is looked for behind a character that does not fit, and that character is passed over. -/
def rawLength (tag left : List Char) (done pending : Nat) : List Char → Nat
  | [] => done
  | c :: rest =>
    match left with
    | [] => done
    | d :: left =>
      if c.toLower = d then
        if left.isEmpty then done else rawLength tag left done (pending + 1) rest
      else rawLength tag tag (done + pending + 1) 0 rest

/-- Whether a reference begins behind an ampersand. -/
def isReference : List Char → Bool
  | '#' :: 'x' :: c :: _ | '#' :: 'X' :: c :: _ => (Text.hexValue? c).isSome
  | '#' :: c :: _ => c.isDigit
  | c :: _ => c.isAlpha
  | [] => false

/-- Whether a document type is declared behind the mark of a declaration. -/
def isDoctype (cs : List Char) : Bool :=
  Text.startsWith "doctype".toList (Text.lowerAscii ((cs.dropWhile isSpace).take 7))

/-- The first lexeme of a text that begins with an angle bracket. -/
def nextAtAngle (ctx : Context) (rest : List Char) : Cut Context Kind :=
  if Text.startsWith "!--".toList rest then
    ⟨.comment, 4 + lengthThrough "-->".toList (rest.drop 3), ctx⟩
  else match rest with
    | '!' :: rest =>
      if isDoctype rest then ⟨.doctype, 2 + lengthThrough ['>'] rest, { ctx with place := .text }⟩
      else ⟨.plain, 2, { ctx with place := .lostText }⟩
    | '/' :: rest => ⟨.bracket, 2, ⟨.endName, impliedByEnd (tagName rest) ctx.names⟩⟩
    | _ => ⟨.bracket, 1, ⟨.startName, impliedByStart (tagName rest) ctx.names⟩⟩

/-- The first lexeme in text. -/
def nextInText (names : List String) (c : Char) (rest : List Char) : Cut Context Kind :=
  match c with
  | '<' => nextAtAngle ⟨.text, names⟩ rest
  | '>' => ⟨.bracket, 1, ⟨.lostText, names⟩⟩
  | '&' => ⟨.plain, 1, ⟨if isReference rest then .text else .lostText, names⟩⟩
  | _ =>
    ⟨.plain, 1 + runLength (fun c => c ≠ '<' && c ≠ '>' && c ≠ '&') rest, ⟨.text, names⟩⟩

/-- The first lexeme in text behind something that does not belong there. -/
def nextInLostText (names : List String) (c : Char) (rest : List Char) : Cut Context Kind :=
  match c with
  | '<' => nextAtAngle ⟨.lostText, names⟩ rest
  | '>' => ⟨.bracket, 1, ⟨.lostText, names⟩⟩
  | '&' => ⟨.plain, 1, ⟨if isReference rest then .text else .lostText, names⟩⟩
  | '=' => ⟨.operator, 1, ⟨.lostText, names⟩⟩
  | '/' =>
    if rest.head? = some '>' then ⟨.bracket, 2, ⟨.lostText, names.tail⟩⟩
    else ⟨.plain, 1, ⟨.lostText, names⟩⟩
  | _ => ⟨.plain, 1, ⟨.lostText, names⟩⟩

/-- The first lexeme in the raw text of the innermost element. -/
def nextInRawText (names : List String) (c : Char) (rest : List Char) : Cut Context Kind :=
  let tag := '<' :: '/' :: (names.headD "").toList
  match rawLength tag tag 0 0 (c :: rest) with
  | 0 => nextInText names c rest
  | n => ⟨.plain, n, ⟨.text, names⟩⟩

/-! ## Tags -/

/-- The place behind a start tag. -/
def behindStart (names : List String) : Context :=
  ⟨if names.head?.any isRaw then .rawText else .text, names⟩

/-- The place behind a start tag that ends its element too, which a script cannot do. -/
def behindEmpty (names : List String) : Context :=
  ⟨if names.head?.any isRaw then .lostText else .text, names.tail⟩

/-- The first lexeme where the name of a start tag is expected. -/
def nextInStartName (names : List String) (c : Char) (rest : List Char) : Cut Context Kind :=
  if isSpace c then ⟨.plain, 1, ⟨.startName, names⟩⟩
  else if isTagChar c then
    let name := tagName (c :: rest)
    ⟨.tag, name.length, ⟨.startTag false, name :: names⟩⟩
  else nextInLostText names c rest

/-- The first lexeme where the name of an end tag is expected.  Outside of all elements, and in one
of raw text, no other name belongs there. -/
def nextInEndName (names : List String) (c : Char) (rest : List Char) : Cut Context Kind :=
  if isSpace c then ⟨.plain, 1, ⟨.endName, names⟩⟩
  else if isTagChar c then
    let name := tagName (c :: rest)
    if names.head? = some name then ⟨.tag, name.length, ⟨.endTag, names.tail⟩⟩
    else ⟨.plain, name.length, ⟨if names.head?.all isRaw then .lostText else .endTag, names⟩⟩
  else nextInLostText names c rest

/-- The first lexeme behind something that does not belong in a start tag, which may be the
beginning of `rest`. -/
def nextInLostTag (names : List String) (c : Char) (rest : List Char) : Cut Context Kind :=
  match c with
  | '<' => nextAtAngle ⟨.text, names⟩ rest
  | '>' => ⟨.bracket, 1, behindStart names⟩
  | '=' => ⟨.operator, 1, ⟨.lostTag, names⟩⟩
  | '/' =>
    if rest.head? = some '>' then ⟨.bracket, 2, behindEmpty names⟩
    else ⟨.plain, 1, ⟨.lostTag, names⟩⟩
  | _ => ⟨.plain, 1, ⟨.lostTag, names⟩⟩

/-- The first lexeme in a start tag behind its name. -/
def nextInStartTag (behindAttribute : Bool) (names : List String) (c : Char) (rest : List Char) :
    Cut Context Kind :=
  if c = '=' ∧ behindAttribute then ⟨.operator, 1, ⟨.value, names⟩⟩
  else if isAttributeChar c then
    ⟨.attribute, 1 + runLength isAttributeChar rest, ⟨.startTag true, names⟩⟩
  else if isSpace c then ⟨.plain, 1, ⟨.startTag behindAttribute, names⟩⟩
  else nextInLostTag names c rest

/-- The first lexeme behind the equals sign of an attribute. -/
def nextInValue (names : List String) (c : Char) (rest : List Char) : Cut Context Kind :=
  if c = '"' ∨ c = '\'' then ⟨.quotedValue, 1 + lengthThrough [c] rest, ⟨.startTag false, names⟩⟩
  else if isValueChar c then
    ⟨.value, 1 + runLength isValueChar rest, ⟨.startTag false, names⟩⟩
  else if isSpace c then ⟨.plain, 1, ⟨.value, names⟩⟩
  else nextInLostTag names c rest

/-- The first lexeme in an end tag behind its name. -/
def nextInEndTag (names : List String) (c : Char) (rest : List Char) : Cut Context Kind :=
  match c with
  | '<' => nextAtAngle ⟨.text, names⟩ rest
  | '>' => ⟨.bracket, 1, ⟨.text, names⟩⟩
  | '=' => ⟨.operator, 1, ⟨.endTag, names⟩⟩
  | '/' =>
    if rest.head? = some '>' then ⟨.bracket, 2, ⟨.endTag, names.tail⟩⟩
    else ⟨.plain, 1, ⟨.endTag, names⟩⟩
  | _ => ⟨.plain, 1, ⟨.endTag, names⟩⟩

/-- The first lexeme of a source. -/
def next (ctx : Context) (c : Char) (rest : List Char) : Cut Context Kind :=
  match ctx.place with
  | .text => nextInText ctx.names c rest
  | .lostText => nextInLostText ctx.names c rest
  | .rawText => nextInRawText ctx.names c rest
  | .startName => nextInStartName ctx.names c rest
  | .endName => nextInEndName ctx.names c rest
  | .startTag behindAttribute => nextInStartTag behindAttribute ctx.names c rest
  | .value => nextInValue ctx.names c rest
  | .lostTag => nextInLostTag ctx.names c rest
  | .endTag => nextInEndTag ctx.names c rest

/-! ## Captures -/

/-- The last character of a lexeme under a name. -/
def captureLast (l : Lexeme Kind) (name : String) : Capture :=
  ⟨name, l.start.after l.text.dropLast, l.stop⟩

/-- What stands between the quotes of a lexeme, unless that is nothing. -/
def captureInner (l : Lexeme Kind) (name : String) : List Capture :=
  if l.text.length ≤ 2 then []
  else [⟨name, l.start.after (l.text.take 1), l.start.after l.text.dropLast⟩]

/-- The captures of a lexeme. -/
def capturesOf (l : Lexeme Kind) : List Capture :=
  match l.kind with
  | .plain => []
  | .comment => [l.capture "comment"]
  | .doctype => [l.capture "constant", captureLast l "punctuation.bracket"]
  | .bracket => [l.capture "punctuation.bracket"]
  | .tag => [l.capture "tag"]
  | .attribute => [l.capture "tag.attribute"]
  | .operator => [l.capture "operator"]
  | .value => [l.capture "string"]
  | .quotedValue => l.capture "string" :: captureInner l "string"

/-- The captures of a source. -/
def captures (code : List Char) : List Capture :=
  (lexemes next ⟨.text, []⟩ code).flatMap capturesOf

end CodeFence.Syntax.HtmlGrammar
