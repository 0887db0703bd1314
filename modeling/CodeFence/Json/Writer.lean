import CodeFence.Json.Value

/-!
# Writing JSON

Two layouts: everything on one line without a blank, or one entry a line with two blanks for each
level.  In both, a string escapes quotes, backslashes and control characters and nothing else.
-/

namespace CodeFence.Json

/-- A hexadecimal digit. -/
def hexDigit (n : Nat) : Char :=
  Nat.digitChar (n % 16)

/-- How one character is written inside a string. -/
def escapeChar (c : Char) : List Char :=
  match c with
  | '"' => ['\\', '"']
  | '\\' => ['\\', '\\']
  | '\n' => ['\\', 'n']
  | '\r' => ['\\', 'r']
  | '\t' => ['\\', 't']
  | '\x08' => ['\\', 'b']
  | '\x0c' => ['\\', 'f']
  | c =>
    if c.toNat < 0x20 then ['\\', 'u', '0', '0', hexDigit (c.toNat / 16), hexDigit c.toNat]
    else [c]

/-- A string between its quotes. -/
def quoted (s : String) : String :=
  "\"" ++ String.ofList (s.toList.flatMap escapeChar) ++ "\""

/-- The digits of a number. -/
def Number.render : Number → String
  | .natural n => toString n
  | .scaled m e => if e = 0 then toString m else toString m ++ "e" ++ toString e

/-- A JSON text is laid out on one line, or over lines that are indented by level. -/
inductive Layout where
  | compact
  | indented
  deriving DecidableEq

/-- What stands before an entry of the given level. -/
def Layout.break (l : Layout) (level : Nat) : String :=
  match l with
  | .compact => ""
  | .indented => "\n" ++ String.ofList (List.replicate (2 * level) ' ')

/-- What stands between a key and its value. -/
def Layout.colon : Layout → String
  | .compact => ":"
  | .indented => ": "

/-- What stands before an entry: a comma, unless it is the first, and a break. -/
def Layout.lead (l : Layout) (level : Nat) (first : Bool) : String :=
  (if first then "" else ",") ++ l.break level

mutual

/-- Writes a value of the given level behind a text. -/
def writeOnto (l : Layout) (level : Nat) (out : String) : Json → String
  | .null => out ++ "null"
  | .bool b => out ++ (if b then "true" else "false")
  | .number n => out ++ n.render
  | .string s => out ++ quoted s
  | .array [] => out ++ "[]"
  | .array items => writeItems l (level + 1) true (out ++ "[") items ++ l.break level ++ "]"
  | .object [] => out ++ "\x7b\x7d"
  | .object entries =>
    writeEntries l (level + 1) true (out ++ "\x7b") entries ++ l.break level ++ "\x7d"

/-- Writes the items of an array behind a text. -/
def writeItems (l : Layout) (level : Nat) (first : Bool) (out : String) : List Json → String
  | [] => out
  | v :: rest =>
    writeItems l level false (writeOnto l level (out ++ l.lead level first) v) rest

/-- Writes the entries of an object behind a text. -/
def writeEntries (l : Layout) (level : Nat) (first : Bool) (out : String) :
    List (String × Json) → String
  | [] => out
  | (key, v) :: rest =>
    writeEntries l level false
      (writeOnto l level (out ++ l.lead level first ++ quoted key ++ l.colon) v) rest

end

/-- The text of a value. -/
def render (l : Layout) (v : Json) : String :=
  writeOnto l 0 "" v

/-- A natural number as a value. -/
def ofNat (n : Nat) : Json :=
  .number (.natural n)

/-- A list of strings as a value. -/
def ofStrings (ss : List String) : Json :=
  .array (ss.map .string)

end CodeFence.Json
