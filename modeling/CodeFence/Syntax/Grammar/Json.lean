import CodeFence.Syntax.Lexeme

/-!
# The grammar of JSON

Any number of values, with comments of both kinds between the words.  The text in front of a colon
is a key, and a backslash takes the character behind it with it.  What is no word at all is passed
over, so that a number whose exponent has a plus sign is read as two.
-/

namespace CodeFence.Syntax.JsonGrammar

/-- The kinds of lexemes. -/
inductive Kind where
  | blank
  | comment
  | string
  | number
  | truth
  | null
  | bracket
  | delimiter
  deriving DecidableEq

/-- How many digits a text begins with. -/
def digits (cs : List Char) : Nat :=
  runLength Char.isDigit cs

/-- The length of an exponent, in front of which no plus sign may stand. -/
def exponentLength : List Char → Nat
  | c :: rest =>
    let sign := if rest.head? = some '-' then 1 else 0
    let width := digits (rest.drop sign)
    if (c = 'e' ∨ c = 'E') ∧ width ≠ 0 then 1 + sign + width else 0
  | [] => 0

/-- The length of a fraction, which may have no digits. -/
def fractionLength : List Char → Nat
  | '.' :: rest => 1 + digits rest
  | _ => 0

/-- The length of a number.  A zero in front is a whole part by itself. -/
def numberLength (cs : List Char) : Nat :=
  let sign := if cs.head? = some '-' then 1 else 0
  let whole := if (cs.drop sign).head? = some '0' then 1 else digits (cs.drop sign)
  let fraction := fractionLength (cs.drop (sign + whole))
  sign + whole + fraction + exponentLength (cs.drop (sign + whole + fraction))

/-- The length of a comment. -/
def commentLength (cs : List Char) : Nat :=
  if Text.startsWith ['/', '*'] cs then 2 + lengthThrough ['*', '/'] (cs.drop 2)
  else runLength (· ≠ '\n') cs

/-- The first lexeme of a source. -/
def first (c : Char) (rest : List Char) : Kind × Nat :=
  match c with
  | '"' => (.string, 1 + quotedLength '"' rest)
  | '/' => (.comment, commentLength (c :: rest))
  | '[' | ']' | '\x7b' | '\x7d' => (.bracket, 1)
  | ',' | ':' => (.delimiter, 1)
  | c =>
    if c = '-' ∨ c.isDigit then (.number, numberLength (c :: rest))
    else if Text.startsWith "true".toList (c :: rest) then (.truth, 4)
    else if Text.startsWith "false".toList (c :: rest) then (.truth, 5)
    else if Text.startsWith "null".toList (c :: rest) then (.null, 4)
    else (.blank, 1)

/-- The escapes in a text that starts at a place, behind those found so far, latest first. -/
def escapesOnto (done : List Capture) (p : Position) : List Char → List Capture
  | '\\' :: c :: rest =>
    let stop := (p.next '\\').next c
    escapesOnto (⟨"escape", p, stop⟩ :: done) stop rest
  | c :: rest => escapesOnto done (p.next c) rest
  | [] => done.reverse

/-- The captures of a lexeme. -/
def capturesOf (l : Lexeme Kind) (isKey : Bool) : List Capture :=
  match l.kind with
  | .blank => []
  | .comment => [l.capture "comment"]
  | .string =>
    (if isKey then [l.capture "property"] else []) ++
      l.capture "string" :: escapesOnto [] l.start l.text
  | .number => [l.capture "number"]
  | .truth => [l.capture "boolean"]
  | .null => [l.capture "constant.builtin"]
  | .bracket => [l.capture "punctuation.bracket"]
  | .delimiter => [l.capture "punctuation.delimiter"]

/-- Whether a lexeme stands in front of a colon, said of each of them from the last one on: what is
known so far, and whether a colon is the next word. -/
def markKey (l : Lexeme Kind) : List (Lexeme Kind × Bool) × Bool →
    List (Lexeme Kind × Bool) × Bool
  | (marked, colonNext) =>
    ((l, colonNext) :: marked,
      match l.kind with
      | .blank | .comment => colonNext
      | _ => l.text = [':'])

/-- The captures of a source. -/
def captures (code : List Char) : List Capture :=
  let cut (_ : Unit) (c : Char) (rest : List Char) : Cut Unit Kind :=
    let (kind, length) := first c rest
    ⟨kind, length, ()⟩
  (((lexemes cut () code).foldr markKey ([], false)).1).flatMap fun (l, isKey) => capturesOf l isKey

end CodeFence.Syntax.JsonGrammar
