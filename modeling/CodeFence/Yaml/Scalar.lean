import CodeFence.Text.Numeral
import CodeFence.Yaml.Cursor

/-!
# YAML scalars

The three ways to write a scalar: plain, between single quotes and between double quotes.  Each
reader starts where the scalar starts and says where it stops.  Inside a scalar a newline stands for
a blank and a row of newlines for one newline less, while a separator stands for itself.
-/

namespace CodeFence.Yaml

/-- A scalar that has been read. -/
structure Scalar where
  text : List Char
  /-- Whether the scalar was written without quotes. -/
  isPlain : Bool
  /-- Whether a line break lies between the scalar and the place where reading stopped. -/
  endsLine : Bool
  /-- Where reading stopped. -/
  next : Cursor

/-- Blanks that may turn out to stand inside a scalar or behind it, latest first. -/
inductive Gap where
  /-- Blanks on one line, perhaps none. -/
  | blanks (cs : List Char)
  /-- Line breaks: the first one, unless a backslash hides it, and the later ones. -/
  | breaks (first : Option Char) (later : List Char)

namespace Gap

/-- No gap at all. -/
def none : Gap :=
  .blanks []

/-- What a gap stands for once the scalar goes on behind it, latest character first. -/
def folded : Gap → List Char
  | .blanks cs => cs
  | .breaks (some '\n') [] => [' ']
  | .breaks (some '\n') later => later
  | .breaks first later => later ++ first.toList

/-- Whether a gap holds a line break. -/
def hasBreak : Gap → Bool
  | .breaks .. => true
  | .blanks _ => false

/-- Whether there is a gap. -/
def isSome : Gap → Bool
  | .blanks [] => false
  | _ => true

/-- The gap with one more blank.  Blanks behind a line break are dropped. -/
def withBlank (c : Char) : Gap → Gap
  | .blanks cs => .blanks (c :: cs)
  | gap => gap

/-- The gap with one more line break.  Blanks in front of it are dropped. -/
def withBreak (c : Char) : Gap → Gap
  | .breaks first later => .breaks first (c :: later)
  | .blanks _ => .breaks (some c) []

end Gap

/-! ## Plain scalars -/

/-- Reads a plain scalar behind what has been read, latest character first.  On a later line it goes
on only from column `least`, unless it stands inside brackets; and no tab may stand further left. -/
def plainAfter (inFlow : Bool) (least : Nat) (out : List Char) (gap : Gap) (place : Place)
    (cs : List Char) : Option Scalar :=
  let stop : Scalar := ⟨out.reverse, true, gap.hasBreak, ⟨place, cs⟩⟩
  match cs with
  | [] => some stop
  | c :: rest =>
    if isSpace c then
      if c = '\t' && gap.hasBreak && place.column < least then none
      else plainAfter inFlow least out (gap.withBlank c) (place.after c) rest
    else if isBreak c then plainAfter inFlow least out (gap.withBreak c) (place.after c) rest
    else if gap.isSome && c = '#' then some stop
    else if gap.hasBreak && !inFlow && place.column < least then some stop
    else if place.column = 0 && isDocumentMark cs then some stop
    else if c = ':' && inFlow && (rest.head?).any (fun d => isFlowMark d || d = '?') then none
    else if (c = ':' && endsToken rest) || (inFlow && isFlowMark c) then some stop
    else plainAfter inFlow least (c :: (gap.folded ++ out)) .none (place.after c) rest

/-- Whether a plain scalar may begin with the given text. -/
def startsPlain (inFlow : Bool) : List Char → Bool
  | [] => false
  | c :: rest =>
    if isSpace c || isBreak c || isFlowMark c || "#&*!|>'\"%@\x60".toList.contains c then false
    else if c = '-' then !endsToken rest
    else if c = '?' || c = ':' then !inFlow && !endsToken rest
    else true

/-- Reads a plain scalar. -/
def plain? (inFlow : Bool) (least : Nat) (cur : Cursor) : Option Scalar :=
  if startsPlain inFlow cur.rest then
    plainAfter inFlow least [] .none cur.toPlace cur.rest
  else none

/-! ## Quoted scalars -/

/-- Reads a scalar between single quotes, from behind the opening one. -/
def singleAfter (out : List Char) (gap : Gap) (place : Place) : List Char → Option Scalar
  | [] => none
  | '\'' :: '\'' :: rest =>
    singleAfter ('\'' :: (gap.folded ++ out)) .none ((place.after '\'').after '\'') rest
  | '\'' :: rest => some ⟨(gap.folded ++ out).reverse, false, false, ⟨place.after '\'', rest⟩⟩
  | c :: rest =>
    if place.column = 0 && isDocumentMark (c :: rest) then none
    else if isSpace c then singleAfter out (gap.withBlank c) (place.after c) rest
    else if isBreak c then singleAfter out (gap.withBreak c) (place.after c) rest
    else singleAfter (c :: (gap.folded ++ out)) .none (place.after c) rest

/-- The character that a one-letter escape stands for. -/
def escaped? : Char → Option Char
  | '0' => some '\x00'
  | 'a' => some '\x07'
  | 'b' => some '\x08'
  | 't' | '\t' => some '\t'
  | 'n' => some '\n'
  | 'v' => some '\x0b'
  | 'f' => some '\x0c'
  | 'r' => some '\r'
  | 'e' => some '\x1b'
  | ' ' => some ' '
  | '"' => some '"'
  | '/' => some '/'
  | '\\' => some '\\'
  | 'N' => some '\u0085'
  | '_' => some '\u00a0'
  | 'L' => some '\u2028'
  | 'P' => some '\u2029'
  | _ => none

/-- How many hexadecimal digits an escape takes. -/
def escapeWidth? : Char → Option Nat
  | 'x' => some 2
  | 'u' => some 4
  | 'U' => some 8
  | _ => none

/-- A character by its code point, which may not be half of a surrogate pair. -/
def charAt? (n : Nat) : Option Char :=
  if n.isValidChar then some (Char.ofNat n) else none

/-- Reads a scalar between double quotes, from behind the opening one.  While `pending` is above
zero, that many hexadecimal digits of an escape are still to come. -/
def doubleAfter (out : List Char) (gap : Gap) (pending value : Nat) (place : Place) :
    List Char → Option Scalar
  | [] => none
  | c :: rest =>
    if pending > 0 then
      match Text.hexValue? c with
      | none => none
      | some d =>
        let value := value * 16 + d
        if pending = 1 then
          match charAt? value with
          | some e => doubleAfter (e :: out) .none 0 0 (place.after c) rest
          | none => none
        else doubleAfter out .none (pending - 1) value (place.after c) rest
    else if place.column = 0 && isDocumentMark (c :: rest) then none
    else if c = '"' then
      some ⟨(gap.folded ++ out).reverse, false, false, ⟨place.after c, rest⟩⟩
    else if isSpace c then doubleAfter out (gap.withBlank c) 0 0 (place.after c) rest
    else if isBreak c then doubleAfter out (gap.withBreak c) 0 0 (place.after c) rest
    else if c = '\\' then
      let out := gap.folded ++ out
      match rest with
      | [] => none
      | e :: rest =>
        let place := (place.after c).after e
        if isBreak e then doubleAfter out (.breaks none []) 0 0 place rest
        else
          match escaped? e, escapeWidth? e with
          | some c, _ => doubleAfter (c :: out) .none 0 0 place rest
          | none, some width => doubleAfter out .none width 0 place rest
          | none, none => none
    else doubleAfter (c :: (gap.folded ++ out)) .none 0 0 (place.after c) rest

/-- Reads a scalar of any kind. -/
def scalar? (inFlow : Bool) (least : Nat) (cur : Cursor) : Option Scalar :=
  match cur.rest with
  | '\'' :: rest => singleAfter [] .none (cur.after '\'') rest
  | '"' :: rest => doubleAfter [] .none 0 0 (cur.after '"') rest
  | _ => plain? inFlow least cur

end CodeFence.Yaml
