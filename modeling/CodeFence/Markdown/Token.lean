import CodeFence.Markdown.Emphasis
import CodeFence.Markdown.Glyph
import CodeFence.Markdown.Reference

/-!
# Tokens

The text of a block is cut into tokens first: text, line breaks, and the marks that may turn out to
be something else than text.  A token knows what is written from it on, because what a mark stands
for depends on what follows it; and because of that, a part of a text may be read in another way than
as its tokens.
-/

namespace CodeFence.Markdown

namespace Token

/-- What a token is. -/
inductive Kind where
  | text
  /-- A reference to characters. -/
  | reference (chars : List Char)
  | softBreak
  /-- A hard line break, and whether it is written as a backslash. -/
  | hardBreak (isEscaped : Bool)
  | run (run : MarkRun)
  /-- A row of backquotes, and whether a backslash escapes the first one. -/
  | backquotes (count : Nat) (isEscaped : Bool)
  /-- An opening angle bracket. -/
  | angle
  | opening (isImage : Bool)
  | closing

/-- Whether a token may turn out to be something else. -/
def Kind.isMark : Kind → Bool
  | .run _ | .backquotes _ _ | .angle | .opening _ | .closing => true
  | .text | .reference _ | .softBreak | .hardBreak _ => false

end Token

/-- A token, from a place of the text to another one, with everything that is written from its first
character on. -/
structure Token where
  kind : Token.Kind
  start : Nat
  stop : Nat
  here : List Glyph

namespace Token

/-- The glyphs of a token. -/
def glyphs (t : Token) : List Glyph :=
  t.here.take (t.stop - t.start)

/-- The characters of a token. -/
def chars (t : Token) : List Char :=
  Glyph.chars Glyph.isPlain t.glyphs

/-! ## What begins at a place -/

/-- What begins at a place of a line. -/
inductive Lead where
  /-- So many characters of text. -/
  | text (count : Nat)
  /-- So many characters that are not part of the text, and one more that is. -/
  | escape (count : Nat)
  /-- A token of so many characters, behind others that are not part of the text. -/
  | token (skipped : Nat) (kind : Kind) (count : Nat)

/-- The length of a row of one character. -/
def rowLength (c : Char) (gs : List Glyph) : Nat :=
  (gs.takeWhile fun g => g.char = c).length

/-- What begins with a backslash. -/
def leadOfBackslash (rest : List Glyph) : Lead :=
  match rest with
  | ⟨'\\', .escape⟩ :: _ => .escape 2
  | g :: more =>
    if !isAsciiPunctuation g.char then .text 1
    else if g.char = '\x60' then
      let count := rowLength '\x60' more + 1
      .token 1 (.backquotes count true) count
    else .escape 1
  | [] => .text 1

/-- The most characters of a reference behind its ampersand. -/
def maxReferenceLength : Nat := 64

/-- What begins with a character behind `before` in its line.  Line ends are not looked at. -/
def leadOf (before : Option Char) (g : Glyph) (rest : List Glyph) : Lead :=
  match g.char with
  | '\\' => if g.role = .escape then .escape 1 else leadOfBackslash rest
  | '*' | '_' | '~' =>
    let count := rowLength g.char rest + 1
    match MarkRun.between? g.char count before ((rest.drop (count - 1)).head?.map Glyph.char) with
    | some run => .token 0 (.run run) count
    | none => .text count
  | '\x60' =>
    let count := rowLength '\x60' rest + 1
    .token 0 (.backquotes count false) count
  | '<' => if rest.head?.any fun g => g.char = '\\' then .text 1 else .token 0 .angle 1
  | '!' =>
    if rest.head?.any fun g => g.char = '[' then .token 0 (.opening true) 2 else .text 1
  | '[' => .token 0 (.opening false) 1
  | ']' => .token 0 .closing 1
  | '&' =>
    let behind := (rest.take maxReferenceLength).map Glyph.char
    match reference? behind with
    | some (chars, left) => .token 0 (.reference chars) (behind.length - left.length + 1)
    | none => .text 1
  | _ => .text 1

/-! ## Cutting a text -/

/-- A text cut in part: the place that has been reached, the line up to it, latest first, whether
that is nothing but its beginning, and where the text behind the last token begins. -/
structure Cut where
  place : Nat := 0
  line : List Char := []
  isFresh : Bool := true
  textStart : Nat := 0
  textHere : List Glyph

namespace Cut

/-- The text up to a place, as a token if there is any. -/
def textTo (s : Cut) (stop : Nat) : List Token :=
  if s.textStart < stop then [⟨.text, s.textStart, stop, s.textHere⟩] else []

/-- Goes on behind a number of characters. -/
def advance (s : Cut) (count : Nat) (gs : List Glyph) : Cut :=
  { s with
    place := s.place + count
    line := ((gs.take count).map Glyph.char).reverse ++ s.line
    isFresh := false }

/-- Goes on behind a number of characters, with the text that begins there. -/
def restart (s : Cut) (count : Nat) (gs : List Glyph) : Cut :=
  let s := s.advance count gs
  { s with textStart := s.place, textHere := gs.drop count }

/-- The number of characters that end a line. -/
def lineEndLength : List Glyph → Nat
  | ⟨'\r', _⟩ :: ⟨'\n', _⟩ :: _ => 2
  | _ => 1

/-- The tokens at the end of a line.  A backslash or two blanks make the break a hard one; blanks in
front of it are no text. -/
def breakTokens (s : Cut) (gs : List Glyph) : List Token :=
  let stop := s.place + lineEndLength gs
  let backslashes := (s.line.takeWhile (· = '\\')).length
  let blanks := (s.line.takeWhile isSpace).length
  let token (kind : Kind) (width : Nat) : List Token :=
    s.textTo (s.place - width) ++
      [⟨kind, s.place - width, stop, Glyph.plainText (s.line.take width).reverse ++ gs⟩]
  if backslashes % 2 = 1 then token (.hardBreak true) 1
  else if 2 ≤ blanks then token (.hardBreak false) blanks
  else s.textTo (s.place - blanks) ++ [⟨.softBreak, s.place, stop, gs⟩]

/-- The tokens at the end of the text. -/
def endTokens (s : Cut) : List Token :=
  s.textTo (s.place - (s.line.takeWhile isSpace).length)

end Cut

/-- The number of characters in front of the text of a line. -/
def indentLength (gs : List Glyph) : Nat :=
  (gs.takeWhile fun g => g.role = .margin).length +
    ((gs.dropWhile fun g => g.role = .margin).takeWhile fun g => isIndent g.char).length

/-- The tokens of a text from a place on. -/
def tokensFrom (s : Cut) (gs : List Glyph) : List Token :=
  match gs with
  | [] => s.endTokens
  | g :: rest =>
    if isLineEnd g.char then
      let count := Cut.lineEndLength gs
      let behind := rest.drop (count - 1)
      let indent := indentLength behind
      let line := { place := s.place + count, textHere := [] : Cut }
      s.breakTokens gs ++
        tokensFrom { line.restart indent behind with isFresh := true } (behind.drop indent)
    else
      match leadOf (if s.isFresh then none else s.line.head?) g rest with
      | .text count => tokensFrom (s.advance count gs) (rest.drop (count - 1))
      | .escape count =>
        let s' := s.restart count gs
        s.textTo s.place ++ tokensFrom (s'.advance 1 (gs.drop count)) (rest.drop count)
      | .token skipped kind count =>
        let start := s.place + skipped
        s.textTo s.place ++ ⟨kind, start, start + count, gs.drop skipped⟩ ::
          tokensFrom (s.restart (skipped + count) gs) (rest.drop (skipped + count - 1))
termination_by gs.length
decreasing_by all_goals simp only [List.length_drop, List.length_cons]; omega

/-- A last token that ends at a limit, whatever it is.  Behind a run of marks, the further
characters are text if the marks are. -/
def limitTo (limit : Nat) (t : Token) : Token :=
  match t.kind with
  | .run r =>
    let trailing := Glyph.chars Glyph.isPlain ((t.here.drop r.length).take (limit - t.stop))
    { t with kind := .run { r with trailing }, stop := limit }
  | _ => { t with stop := limit }

end Token

/-- The tokens of the text of a block. -/
def RawText.tokens (raw : RawText) : List Token :=
  let indent := Token.indentLength raw.glyphs
  let start := { textHere := raw.glyphs : Token.Cut }
  let tokens := Token.tokensFrom { start.restart indent raw.glyphs with isFresh := true }
    (raw.glyphs.drop indent)
  match raw.limit, tokens.reverse with
  | some limit, last :: before => (last.limitTo limit :: before).reverse
  | _, _ => tokens

end CodeFence.Markdown
