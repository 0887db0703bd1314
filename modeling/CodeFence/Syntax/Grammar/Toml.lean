import CodeFence.Syntax.Lexeme

/-!
# The grammar of TOML

Pairs of a key and a value, under headers.  A key has parts between dots; a value can hold further
values and, between braces, further pairs.
-/

namespace CodeFence.Syntax.TomlGrammar

/-- The kinds of lexemes. -/
inductive Kind where
  | blank
  | comment
  | bareKey
  | quotedKey
  | string
  | number
  | truth
  /-- A date, a time, or both. -/
  | moment
  | bracket
  | delimiter
  /-- The bracket that opens the header of one table. -/
  | openTable
  /-- The bracket or brackets that close a header. -/
  | closeHeader
  deriving DecidableEq

/-- Something open in a value. -/
inductive Frame where
  | list
  | pairs
  deriving DecidableEq

/-- Where a lexeme begins: in a key, of a header or a pair, or in a value. -/
inductive Place where
  /-- At the beginning of a line. -/
  | start
  | header
  | key (stack : List Frame)
  | value (stack : List Frame)

/-- Whether a character may stand in a key without quotes. -/
def isKeyChar (c : Char) : Bool :=
  c.isAlphanum || c = '_' || c = '-'

/-- Whether a character may stand in a number, a truth value, a date or a time. -/
def isWordChar (c : Char) : Bool :=
  isKeyChar c || c = '+' || c = '.' || c = ':'

/-- Whether a comment goes on. -/
def isCommentChar (c : Char) : Bool :=
  c = '\t' || (decide (0x20 ≤ c.toNat) && c.toNat ≠ 0x7F)

/-- Up to two quotes more, which may end a text between three quotes. -/
def furtherQuotes (quote : Char) (cs : List Char) : Nat :=
  min 2 (runLength (· = quote) cs)

/-- How far a text between three quotes goes from behind them, counted from `n`. -/
def longLength (quote : Char) (n : Nat) : List Char → Nat
  | [] => n
  | c :: rest =>
    if c = quote ∧ Text.startsWith [quote, quote] rest then
      n + 3 + furtherQuotes quote (rest.drop 2)
    else if c = '\\' ∧ quote = '"' then longLength quote (n + min 2 (rest.length + 1)) (rest.drop 1)
    else longLength quote (n + 1) rest
termination_by cs => cs.length
decreasing_by
  all_goals simp only [List.length_drop, List.length_cons]
  all_goals omega

/-- The length of a text in quotes that opens with the given quote. -/
def stringLength (quote : Char) (rest : List Char) : Nat :=
  if Text.startsWith [quote, quote] rest then 3 + longLength quote 0 (rest.drop 2)
  else if quote = '"' then 1 + quotedLength quote rest
  else 1 + lengthThrough [quote] rest

/-- The length of a key in quotes that opens with the given quote. -/
def quotedKeyLength (quote : Char) (rest : List Char) : Nat :=
  if quote = '"' then 1 + quotedLength quote rest else 1 + lengthThrough [quote] rest

/-- Whether a word is a date or a time: its leading digits end at a hyphen or a colon. -/
def isMoment (word : List Char) : Bool :=
  match word.dropWhile Char.isDigit with
  | c :: _ => (c = '-' || c = ':') && word.head?.any Char.isDigit
  | [] => false

/-- The length of the time behind a date and one space. -/
def timeLength : List Char → Nat
  | ' ' :: a :: b :: ':' :: rest =>
    if a.isDigit && b.isDigit then 4 + runLength isWordChar rest else 0
  | _ => 0

/-- The value without quotes that a text begins with. -/
def word (cs : List Char) : Kind × Nat :=
  let w := cs.takeWhile isWordChar
  if w = "true".toList ∨ w = "false".toList then (.truth, w.length)
  else if isMoment w then (.moment, w.length + timeLength (cs.drop w.length))
  else (.number, w.length)

/-- The first lexeme in a key. -/
def nextInKey (here : Place) (stack : List Frame) (c : Char) (rest : List Char) :
    Cut Place Kind :=
  if c = '"' ∨ c = '\'' then ⟨.quotedKey, quotedKeyLength c rest, here⟩
  else if isKeyChar c then ⟨.bareKey, 1 + runLength isKeyChar rest, here⟩
  else if c = '.' ∨ c = ',' then ⟨.delimiter, 1, here⟩
  else if c = '=' then ⟨.delimiter, 1, .value stack⟩
  else if c = '\x7d' then ⟨.bracket, 1, .value (stack.drop 1)⟩
  else ⟨.blank, 1, here⟩

/-- The first lexeme in a value. -/
def nextInValue (stack : List Frame) (c : Char) (rest : List Char) : Cut Place Kind :=
  match c with
  | '"' | '\'' => ⟨.string, stringLength c rest, .value stack⟩
  | '[' => ⟨.bracket, 1, .value (.list :: stack)⟩
  | '\x7b' => ⟨.bracket, 1, .key (.pairs :: stack)⟩
  | ']' | '\x7d' => ⟨.bracket, 1, .value (stack.drop 1)⟩
  | ',' => ⟨.delimiter, 1, if stack.head? = some .pairs then .key stack else .value stack⟩
  | c =>
    if isWordChar c then
      let (kind, length) := word (c :: rest)
      ⟨kind, length, .value stack⟩
    else ⟨.blank, 1, .value stack⟩

/-- The first lexeme of a source. -/
def next (place : Place) (c : Char) (rest : List Char) : Cut Place Kind :=
  match place, c with
  | .start, '\n' | .header, '\n' | .key [], '\n' | .value [], '\n' => ⟨.blank, 1, .start⟩
  | place, '#' => ⟨.comment, 1 + runLength isCommentChar rest, place⟩
  | .start, '[' =>
    if rest.head? = some '[' then ⟨.bracket, 2, .header⟩ else ⟨.openTable, 1, .header⟩
  | .header, ']' => ⟨.closeHeader, if rest.head? = some ']' then 2 else 1, .value []⟩
  | .header, c => nextInKey .header [] c rest
  | .start, c => if c.isWhitespace then ⟨.blank, 1, .start⟩ else nextInKey (.key []) [] c rest
  | .key stack, c => nextInKey (.key stack) stack c rest
  | .value stack, c => nextInValue stack c rest

/-- The captures of a lexeme. -/
def capturesOf (l : Lexeme Kind) : List Capture :=
  match l.kind with
  | .blank => []
  | .comment => [l.capture "comment"]
  | .bareKey | .quotedKey => [l.capture "property"]
  | .string => [l.capture "string"]
  | .number => [l.capture "number"]
  | .truth => [l.capture "boolean"]
  | .moment => [l.capture "string.special"]
  | .bracket | .openTable | .closeHeader => [l.capture "punctuation.bracket"]
  | .delimiter => [l.capture "punctuation.delimiter"]

/-- Whether a lexeme is a part of a key. -/
def isKeyPart (l : Lexeme Kind) : Bool :=
  l.kind = .bareKey || l.kind = .quotedKey

/-- The key of the header whose opening bracket has been read, as the name of a type: all of it if
it has several parts, or its one part if that has no quotes. -/
def headerType (rest : List (Lexeme Kind)) : List Capture :=
  let keys := (rest.takeWhile (·.kind ≠ .closeHeader)).filter isKeyPart
  match keys, keys.getLast? with
  | [k], _ => if k.kind = .bareKey then [k.capture "type"] else []
  | first :: _, some last => [⟨"type", first.start, last.stop⟩]
  | _, _ => []

/-- The captures of lexemes, behind those found so far, latest first. -/
def capturesOnto (done : List Capture) : List (Lexeme Kind) → List Capture
  | [] => done.reverse
  | l :: rest =>
    let named := if l.kind = .openTable then headerType rest else []
    capturesOnto (named.reverse ++ (capturesOf l).reverse ++ done) rest

/-- The captures of a source. -/
def captures (code : List Char) : List Capture :=
  capturesOnto [] (lexemes next .start code)

end CodeFence.Syntax.TomlGrammar
