import CodeFence.Block.Config
import CodeFence.Json.Writer

/-!
# Configurations as JSON

A rendered block carries its configuration as a JSON object.  Reading accepts an object, whose
unknown keys are ignored and whose known keys may occur once, or an array of the same fields in
order.  Only the language must be given.
-/

namespace CodeFence.BlockConfig

open Json

/-- The keys of the fields, in order. -/
def keys : List String :=
  ["language", "highlightLines", "showLineNumbers", "startLineNumber", "title", "filename",
   "fold", "unfold", "exclude", "customTheme"]

/-- A configuration as a JSON value; a field without value is left out. -/
def toJson (c : BlockConfig) : Json :=
  let optional (key : String) (value : Option String) : List (String × Json) :=
    match value with
    | some v => [(key, .string v)]
    | none => []
  .object <|
    [("language", .string c.language),
     ("highlightLines", .array (c.highlightLines.map Json.ofNat)),
     ("showLineNumbers", .bool c.showLineNumbers),
     ("startLineNumber", Json.ofNat c.startLine)] ++
    optional "title" c.title ++ optional "filename" c.filename ++
    [("fold", .bool c.fold), ("unfold", .bool c.unfold), ("exclude", .bool c.exclude)] ++
    optional "customTheme" c.theme

/-- A string that has a value. -/
def stringField? : Tree → Option String
  | .string value? => value?
  | _ => none

/-- A truth value. -/
def boolField? : Tree → Option Bool
  | .bool b => some b
  | _ => none

/-- A natural number of at most 32 bits. -/
def lineField? : Tree → Option Nat
  | .number (.natural n) => if n < Text.bitBound 32 then some n else none
  | _ => none

/-- A list of natural numbers of at most 32 bits. -/
def linesField? : Tree → Option (List Nat)
  | .array items => items.mapM lineField?
  | _ => none

/-- A string that has a value, or nothing. -/
def labelField? : Tree → Option (Option String)
  | .null => some none
  | .string (some s) => some (some s)
  | _ => none

/-- The configuration whose fields are found by key. -/
def ofFields? (find : String → Option Tree) : Option BlockConfig := do
  let read {α : Type} (key : String) (read? : Tree → Option α) (default : α) : Option α :=
    match find key with
    | some t => read? t
    | none => some default
  return {
    language := ← (← find "language") |> stringField?
    highlightLines := ← read "highlightLines" linesField? []
    showLineNumbers := ← read "showLineNumbers" boolField? false
    startLine := ← read "startLineNumber" lineField? 1
    title := ← read "title" labelField? none
    filename := ← read "filename" labelField? none
    fold := ← read "fold" boolField? false
    unfold := ← read "unfold" boolField? false
    exclude := ← read "exclude" boolField? false
    theme := ← read "customTheme" labelField? none }

/-- Whether every key of an object has a value and no known key is repeated. -/
def keysAreSound (entries : List (Option String × Tree)) : Bool :=
  entries.all (·.1.isSome) &&
    keys.all fun key => (entries.filter (·.1 = some key)).length ≤ 1

/-- The configuration that a JSON text says. -/
def ofTree? : Tree → Option BlockConfig
  | .object entries =>
    if keysAreSound entries then ofFields? fun key => entries.lookup (some key) else none
  | .array items =>
    if items.length ≤ keys.length then ofFields? fun key => (keys.zip items).lookup key else none
  | _ => none

/-- Reads a configuration. -/
def parse? (text : String) : Option BlockConfig :=
  (Tree.parse? text).bind ofTree?

/-- Writes a configuration on one line. -/
def render (c : BlockConfig) : String :=
  c.toJson.render .compact

end CodeFence.BlockConfig
