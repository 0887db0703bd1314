import CodeFence.Markdown.Definition
import CodeFence.Markdown.Tag
import CodeFence.Markdown.Token

/-!
# The text of a block

The tokens of a text are read from left to right.  Code and markup are found at once; a closing
bracket looks back for the opening one and makes a link, an image or a reference to a footnote of
what stands between them, if what follows or the definitions of the document say where it leads.
Emphasis is found last.

What has been read as one thing may end inside a later token, of which only the rest is left then.
References to definitions copy what they stand for; only so much may be copied in a document.
-/

namespace CodeFence.Markdown

/-- An opening bracket that waits for a closing one. -/
structure Bracket where
  token : Token
  isImage : Bool
  /-- Whether it may still begin a link: links do not stand inside links. -/
  isActive : Bool := true

/-- The bracket as text. -/
def Bracket.text (b : Bracket) : Element :=
  .node (.text (String.ofList b.token.chars))

/-- Something that has been found in a text. -/
inductive Entry where
  | element (element : Element)
  | bracket (bracket : Bracket)

namespace Entry

/-- The part of the text that an entry is when nothing closes it. -/
def toElement : Entry → Element
  | element e => e
  | bracket b => b.text

/-- The entry with a bracket that can begin no link. -/
def deactivate : Entry → Entry
  | element e => element e
  | bracket b => if b.isImage then bracket b else bracket { b with isActive := false }

end Entry

/-- The nearest open bracket among entries, latest first: what stands behind it in order, the
bracket, and what stands before it. -/
def cutAtBracket? (behind : List Element) :
    List Entry → Option (List Element × Bracket × List Entry)
  | [] => none
  | .element e :: rest => cutAtBracket? (e :: behind) rest
  | .bracket b :: rest => some (behind, b, rest)

/-- A text read in part: what has been found, latest first, and how much may still be copied from
definitions. -/
structure InlineState where
  entries : List Entry := []
  budget : Nat

namespace InlineState

/-- The state with one more entry. -/
def push (s : InlineState) (e : Entry) : InlineState :=
  { s with entries := e :: s.entries }

/-- The state with one more node. -/
def pushNode (s : InlineState) (n : Inline) : InlineState :=
  s.push (.element (.node n))

/-- The state with more text. -/
def pushText (s : InlineState) (cs : List Char) : InlineState :=
  s.pushNode (.text (String.ofList cs))

end InlineState

/-- What a token has been read as: the state behind it, how many of the tokens behind it belong to
it, and the place at which the rest begins. -/
structure Reading where
  state : InlineState
  used : Nat := 0
  place : Nat := 0

namespace Token

/-- The number of tokens that end at a place or before it. -/
def countTo (place : Nat) (tokens : List Token) : Nat :=
  (tokens.takeWhile fun t => t.stop ≤ place).length

/-- The tokens from a place on. -/
def cutBefore (place : Nat) : List Token → List Token
  | [] => []
  | t :: rest =>
    if t.start < place then { t with start := place, here := t.here.drop (place - t.start) } :: rest
    else t :: rest

theorem length_cutBefore (place : Nat) (tokens : List Token) :
    (cutBefore place tokens).length = tokens.length := by
  cases tokens with
  | nil => rfl
  | cons t rest => simp only [cutBefore]; split <;> rfl

end Token

/-- A token that has been read together with everything up to a place. -/
def Reading.upTo (state : InlineState) (place : Nat) (rest : List Token) : Reading :=
  { state, used := Token.countTo place rest, place }

/-! ## Code -/

/-- The text of code on one line: each character that ends a line is a space.  The code may end with
the indentation of a line. -/
def codeChars (gs : List Glyph) : List Char :=
  let kept := (gs.reverse.dropWhile fun g => g.role = .shortfall).reverse
  (Glyph.chars Glyph.isPlain kept).map fun c => if isLineEnd c then ' ' else c

/-- Code as it counts: without one space on either side if there is one on both and something else
between them. -/
def normalizeCode (code : List Char) : List Char :=
  if code.head? = some ' ' ∧ code.getLast? = some ' ' ∧ ¬ code.all (· = ' ') then
    (code.drop 1).dropLast
  else code

/-- The first row of so many backquotes among tokens. -/
def closingRow? (count : Nat) (tokens : List Token) : Option Token :=
  tokens.find? fun t => match t.kind with
    | .backquotes n _ => n = count
    | _ => false

/-- Reads a row of backquotes.  One that is escaped does not count in front of code, but does behind
it. -/
def readBackquotes (s : InlineState) (t : Token) (count : Nat) (isEscaped : Bool)
    (rest : List Token) : Reading :=
  let width := if isEscaped then count - 1 else count
  match if width = 0 then none else closingRow? width rest with
  | none => { state := s.pushText t.chars }
  | some closer =>
    let code := (t.here.drop (t.stop - t.start)).take (closer.start - t.stop)
    let s := if isEscaped then s.pushText ['\x60'] else s
    .upTo (s.pushNode (.code (String.ofList (normalizeCode (codeChars code))))) closer.stop rest

/-! ## Addresses -/

/-- Whether a character may stand in the scheme of an address. -/
def isSchemeChar (c : Char) : Bool :=
  c.isAlphanum || c = '+' || c = '.' || c = '-'

/-- Whether a character may stand in an address behind its scheme. -/
def isUriChar (c : Char) : Bool :=
  decide (0x20 < c.toNat) && c ≠ '<' && c ≠ '>'

/-- Reads an address up to a closing angle bracket. -/
def uri? (cs : List Char) : Option (List Char) :=
  let scheme := cs.takeWhile isSchemeChar
  match cs.drop scheme.length with
  | ':' :: rest =>
    let body := rest.takeWhile isUriChar
    if (rest.drop body.length).head? = some '>' ∧ cs.head?.any Char.isAlpha ∧
        2 ≤ scheme.length ∧ scheme.length ≤ 32 then
      some (scheme ++ ':' :: body)
    else none
  | _ => none

/-- Whether a character may stand in the name of a mailbox. -/
def isMailboxChar (c : Char) : Bool :=
  c.isAlphanum || ".!#$%&'*+/=?^_\x60\x7b|\x7d~-".toList.contains c

/-- Whether a text is a part of a domain name. -/
def isDomainLabel (cs : List Char) : Bool :=
  !cs.isEmpty && decide (cs.length ≤ 63) && cs.head? != some '-' && cs.getLast? != some '-'

/-- Reads the address of a mailbox up to a closing angle bracket. -/
def mail? (cs : List Char) : Option (List Char) :=
  let name := cs.takeWhile isMailboxChar
  match cs.drop name.length with
  | '@' :: rest =>
    let domain := rest.takeWhile fun c => c.isAlphanum || c = '-' || c = '.'
    if (rest.drop domain.length).head? = some '>' ∧ !name.isEmpty ∧
        (Text.splitAt '.' domain).all isDomainLabel then
      some (name ++ '@' :: domain)
    else none
  | _ => none

/-- A link that shows its own address. -/
def addressLink (address : List Char) (isMail : Bool) : Inline :=
  let text := String.ofList address
  .link { url := text, isMail } [.text text]

/-! ## Markup -/

/-- Reads markup, whose angle bracket is followed by the given glyphs, as it is written: what it is,
and how many of the glyphs belong to it.  Comments and the like contain the marks of the blocks
around the text, and tags do not. -/
def markup? (gs : List Glyph) : Option (Inline × Nat) :=
  let written (p : Glyph → Bool) (behind? : List Char → Option (List Char)) :
      Option (Inline × Nat) :=
    let cs := Glyph.chars p gs
    (behind? cs).map fun rest =>
      let count := cs.length - rest.length
      (.html (String.ofList ('<' :: cs.take count)), Glyph.reach p count gs)
  match gs with
  | [] => none
  | g :: _ =>
    if g.char = '!' ∨ g.char = '?' then written (fun _ => true) Tag.afterLiteral?
    else if g.char = '/' ∨ g.char.isAlpha then written Glyph.isInside (Tag.after? isAsciiBlank)
    else none

/-- Reads what follows an opening angle bracket as an address or as markup: what it is, and how many
of the glyphs belong to it. -/
def angle? (gs : List Glyph) : Option (Inline × Nat) :=
  let line := (gs.takeWhile fun g => !isLineEnd g.char).map Glyph.char
  match uri? line, mail? line with
  | some address, _ => some (addressLink address false, address.length + 1)
  | none, some address => some (addressLink address true, address.length + 1)
  | none, none => markup? gs

/-- Reads an opening angle bracket.  Something must follow it. -/
def readAngle (s : InlineState) (t : Token) (rest : List Token) : Reading :=
  match if rest.isEmpty then none else angle? (t.here.drop 1) with
  | some (node, count) => .upTo (s.pushNode node) (t.start + 1 + count) rest
  | none => { state := s.pushText t.chars }

/-! ## Brackets -/

/-- What a pair of brackets stands for. -/
inductive Meaning where
  | link (target : Target)
  | note (label : String)

/-- A label between brackets. -/
inductive BracketLabel where
  | link (label : List Char)
  | note (label : List Char)

/-- Reads a label between brackets from behind the opening one.  That of a footnote begins with a
caret and stands on one line. -/
def bracketLabel? (cs : List Char) : Option (BracketLabel × List Char) :=
  let note : Option (BracketLabel × List Char) :=
    match cs with
    | '^' :: ']' :: _ => none
    | '^' :: rest => (label? 0 rest).map fun (label, rest) => (.note label, rest)
    | _ => none
  note.or ((label? 1 cs).map fun (label, rest) => (.link label, rest))

/-- What a definition gives for a label, unless too much has been copied already, and how much may be
copied then. -/
def Definitions.copy? (d : Definitions) (budget : Nat) (label : List Char) :
    Option (Target × Nat) :=
  if budget = 0 then none
  else (d.link? label).map fun target =>
    (target, budget - (target.url.utf8ByteSize + target.title.utf8ByteSize))

/-- What a pair of brackets is followed by. -/
inductive Follower where
  /-- A target in parentheses, up to a place. -/
  | target (target : Target) (place : Nat)
  /-- A label in brackets, and how many tokens it has. -/
  | label (label : List Char) (used : Nat)
  /-- Nothing that says more about the link than its text, and how many tokens that has. -/
  | none (used : Nat)

/-- Reads something that must begin with a character: what it is, and how many glyphs it has. -/
def readBehind? {α : Type} (opener : Char) (read? : List Char → Option (α × List Char))
    (gs : List Glyph) : Option (α × Nat) :=
  match gs with
  | [] => none
  | g :: rest =>
    if g.char = opener then
      let cs := Glyph.chars Glyph.isPlain rest
      (read? cs).map fun (a, left) =>
        (a, Glyph.reach Glyph.isPlain (cs.length - left.length) rest + 1)
    else none

/-- Looks for a label behind a closing bracket.  A backslash may stand in front of it. -/
def followingLabel (rest : List Token) : Follower :=
  match rest with
  | [] => .none 0
  | next :: _ =>
    match next.here with
    | ⟨'[', _⟩ :: ⟨']', _⟩ :: _ => .none 2
    | gs =>
      match readBehind? '[' bracketLabel? gs with
      | some (.link label, count) => .label label (Token.countTo (next.start + count - 1) rest + 1)
      | _ => .none 0

/-- Looks at what follows a closing bracket. -/
def follower (t : Token) (rest : List Token) : Follower :=
  match readBehind? '(' target? (t.here.drop 1) with
  | some (target, count) => .target target (t.start + 1 + count)
  | none => followingLabel rest

/-- What stands between two brackets, if that is a label. -/
def innerLabel? (b : Bracket) (closer : Token) : Option BracketLabel :=
  let start := b.token.stop
  let inner := (b.token.here.drop (start - b.token.start)).take (closer.stop - start)
  match bracketLabel? (Glyph.chars Glyph.isPlain inner) with
  | some (l, []) => some l
  | _ => none

/-- The meaning of a pair of brackets that stands by itself, with how many tokens belong to it and
how much may still be copied. -/
def ownMeaning? (d : Definitions) (budget : Nat) (b : Bracket) (closer : Token) (used : Nat) :
    Option (Meaning × Nat × Nat) :=
  match innerLabel? b closer with
  | some (.note label) =>
    if d.hasNote label then some (.note (String.ofList label), 0, budget) else none
  | some (.link label) =>
    (d.copy? budget label).map fun (target, budget) => (.link target, used, budget)
  | none => none

/-- Closes a bracket with a link or an image. -/
def closeWith (b : Bracket) (elements : List Element) (before : List Entry) (target : Target) :
    List Entry :=
  let isStyled := elements.any fun e => match e with
    | .run _ => true
    | _ => false
  let content := emphasize (if isStyled then dropLastBreak elements else elements)
  if b.isImage then .element (.node (.image target content)) :: before
  else .element (.node (.link target content)) :: before.map Entry.deactivate

/-- Closes a bracket with a reference to a footnote.  No bracket that is open around it can be closed
any more. -/
def closeWithNote (b : Bracket) (before : List Entry) (label : String) : List Entry :=
  let mark := if b.isImage then [Entry.element (.node (.text "!"))] else []
  .element (.node (.note label)) ::
    (mark ++ before.map fun e => .element e.toElement)

/-- Reads a closing bracket. -/
def closeBracket (d : Definitions) (s : InlineState) (t : Token) (rest : List Token) : Reading :=
  match cutAtBracket? [] s.entries with
  | none => { state := s.pushText t.chars }
  | some (elements, b, before) =>
    let asText : Reading :=
      let entries := elements.reverse.map Entry.element ++ .element b.text :: before
      { state := { s with entries }.pushText t.chars }
    if !b.isActive then asText
    else
      let linked (target : Target) (budget : Nat) : InlineState :=
        { entries := closeWith b elements before target, budget }
      match follower t rest with
      | .target target place => .upTo (linked target s.budget) place rest
      | .label label used =>
        match d.copy? s.budget label with
        | some (target, budget) => { state := linked target budget, used }
        | none => asText
      | .none used =>
        match ownMeaning? d s.budget b t used with
        | some (.link target, used, budget) => { state := linked target budget, used }
        | some (.note label, used, _) =>
          { state := { s with entries := closeWithNote b before label }, used }
        | none => asText

/-! ## Reading -/

/-- Reads a token, given those behind it. -/
def readToken (d : Definitions) (s : InlineState) (t : Token) (rest : List Token) : Reading :=
  match t.kind with
  | .text => { state := s.pushText t.chars }
  | .reference chars => { state := s.pushText chars }
  | .softBreak => { state := s.pushNode .softBreak }
  | .hardBreak isEscaped =>
    { state := if isEscaped then s.push (.element .escapedBreak) else s.pushNode .hardBreak }
  | .run r => { state := s.push (.element (.run r)) }
  | .backquotes count isEscaped => readBackquotes s t count isEscaped rest
  | .angle => readAngle s t rest
  | .opening isImage => { state := s.push (.bracket { token := t, isImage }) }
  | .closing => closeBracket d s t rest

/-- Reads tokens. -/
def readTokens (d : Definitions) (s : InlineState) : List Token → InlineState
  | [] => s
  | t :: rest =>
    let r := readToken d s t rest
    readTokens d r.state (Token.cutBefore r.place (rest.drop r.used))
termination_by tokens => tokens.length
decreasing_by
  simp only [Token.length_cutBefore, List.length_drop, List.length_cons]
  omega

/-- The nodes of the text of a block, given how much may be copied from definitions. -/
def readInline (d : Definitions) (raw : RawText) : StateM Nat (List Inline) := fun budget =>
  let tokens := raw.tokens
  let s := readTokens d { budget } tokens
  let elements := s.entries.reverse.map Entry.toElement
  let hasMarks := tokens.any fun t => t.kind.isMark
  let content := emphasize (if hasMarks then dropLastBreak elements else elements)
  ((raw.task.map Inline.task).toList ++ content, s.budget)

end CodeFence.Markdown
