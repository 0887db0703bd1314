import CodeFence.Entries
import CodeFence.Theme.Color
import CodeFence.Yaml.Node

/-!
# Themes as they are written

What a theme file says, before its colors are read.  A record is a mapping whose unknown keys are
ignored and whose known keys may occur once.
-/

namespace CodeFence.Theme

/-- Whether a theme is meant for dark or for light surroundings. -/
inductive Kind where
  | dark
  | light
  deriving DecidableEq

/-- The name of a kind. -/
def Kind.name : Kind → String
  | dark => "dark"
  | light => "light"

/-- A theme as it is written; every color is still a text. -/
structure Source where
  name : String
  kind : Kind := .dark
  background : String
  foreground : String
  lineNumber : Option String := none
  highlightedLine : Option String := none
  titleBackground : Option String := none
  /-- The color of each scope. -/
  scopes : List (String × String) := []

/-- The text of a scalar. -/
def text? : Yaml.Node → Option String
  | .scalar text _ => some text
  | _ => none

/-- The words that mean nothing when they are plain. -/
def nothingWords : List String :=
  ["", "null", "Null", "NULL", "~"]

/-- The text of a scalar, or nothing. -/
def optionalText? : Yaml.Node → Option (Option String)
  | .scalar text isPlain => some (if isPlain && nothingWords.contains text then none else some text)
  | _ => none

/-- The value of an octal digit. -/
def octalValue? (c : Char) : Option Nat :=
  if '0' ≤ c ∧ c ≤ '7' then some (c.toNat - '0'.toNat) else none

/-- The value of a binary digit. -/
def binaryValue? (c : Char) : Option Nat :=
  if c = '0' then some 0 else if c = '1' then some 1 else none

/-- The natural number that a plain scalar denotes: decimal without leading zeros, or with a mark of
its base in front. -/
def natural? (text : String) : Option Nat :=
  let cs := Text.dropPlus text.toList
  let marked (mark : List Char) (base : Nat) (value? : Char → Option Nat) : Option Nat :=
    (Text.after? mark cs).bind (Text.numeral? base value?)
  (((marked ['0', 'x'] 16 Text.hexValue?).or (marked ['0', 'o'] 8 octalValue?)).or
    (marked ['0', 'b'] 2 binaryValue?)).or
      (if cs.length > 1 && cs.head? = some '0' then none else Text.decimal? cs)

/-- The version of a theme file: a plain natural number of at most 32 bits. -/
def version? : Yaml.Node → Option Nat
  | .scalar text true => (natural? text).filter (· < Text.bitBound 32)
  | _ => none

/-- The kind of a theme, by its name. -/
def kind? : Yaml.Node → Option Kind
  | .scalar "dark" _ => some .dark
  | .scalar "light" _ => some .light
  | _ => none

/-- The fields of a record by name. -/
def fields? (names : List String) : Yaml.Node → Option (String → Option Yaml.Node)
  | .scalar "" true => some fun _ => none
  | .scalar .. | .sequence _ => none
  | .mapping entries => do
    let entries ← entries.mapM fun (key, value) => (text? key).map (·, value)
    if names.all fun name => (entries.filter (·.1 = name)).length ≤ 1 then
      some fun name => entries.lookup name
    else none

/-- Colors by scope; the last color of a scope counts. -/
def scopes? : Yaml.Node → Option (List (String × String))
  | .scalar "" true => some []
  | .mapping entries =>
    entries.foldlM (fun done (key, value) =>
      match text? key, text? value with
      | some key, some value => some (insertEntry key value done)
      | _, _ => none) []
  | _ => none

/-- A field that may be left out. -/
def optional {α : Type} (default : α) (read? : Yaml.Node → Option α) : Option Yaml.Node → Option α
  | some node => read? node
  | none => some default

/-- The theme that a document says. -/
def Source.ofNode? (node : Yaml.Node) : Option Source := do
  let find ← fields? ["version", "name", "kind", "author", "colors", "syntax"] node
  let _ ← version? (← find "version")
  let _ ← optional none optionalText? (find "author")
  let colors ← fields?
    ["background", "foreground", "line_number", "highlighted_line", "title_background"]
    (← find "colors")
  return {
    name := ← text? (← find "name")
    kind := ← optional .dark kind? (find "kind")
    background := ← text? (← colors "background")
    foreground := ← text? (← colors "foreground")
    lineNumber := ← optional none optionalText? (colors "line_number")
    highlightedLine := ← optional none optionalText? (colors "highlighted_line")
    titleBackground := ← optional none optionalText? (colors "title_background")
    scopes := ← optional [] scopes? (find "syntax") }

end CodeFence.Theme
