import CodeFence.Syntax.Scope
import CodeFence.Theme.Builtin

/-!
# Themes

A theme gives a block its colors: those of the block itself, and one for each scope that its map
names.  Colors that a file leaves out follow from the others.
-/

namespace CodeFence

/-- A theme whose colors have been read. -/
structure Theme where
  id : String
  name : String
  kind : Theme.Kind
  background : Color
  foreground : Color
  lineNumber : Color
  highlightedLine : Color
  titleBackground : Color
  /-- The color of each scope. -/
  scopes : List (String × Color)

/-- Why there is no theme for an id. -/
inductive ThemeError where
  | notFound (id : String)
  /-- The file of the theme is not text. -/
  | unreadable (id path : String)
  /-- The file does not say a theme. -/
  | malformed (id : String)
  /-- A color cannot be read. -/
  | color (id : String) (cause : ColorError)
  /-- The color of a scope cannot be read. -/
  | scopeColor (id scope : String) (cause : ColorError)
  deriving DecidableEq

namespace ThemeError

/-- What is wrong with a theme file. -/
def detail : ThemeError → String
  | notFound _ => ""
  | unreadable _ path =>
    "Failed to read theme file " ++ path ++ ": stream did not contain valid UTF-8"
  | malformed _ => "YAML parse error"
  | color _ cause => cause.message
  | scopeColor _ scope cause => "syntax." ++ scope ++ ": " ++ cause.message

/-- The id of the theme that was asked for. -/
def id : ThemeError → String
  | notFound id | unreadable id _ | malformed id | color id _ | scopeColor id _ _ => id

/-- The wording of an error. -/
def message : ThemeError → String
  | notFound id => "Unknown theme id: " ++ id
  | e => "Invalid theme '" ++ e.id ++ "': " ++ e.detail

end ThemeError

namespace Theme

/-- The color of highlighted lines in a theme that names none. -/
def defaultHighlight : Kind → Color
  | .dark => ⟨0xFF, 0xFF, 0xFF, 0x1A⟩
  | .light => ⟨0x00, 0x00, 0x00, 0x12⟩

/-- Reads a color that may be left out. -/
def readOr (default : Color) : Option String → Except ColorError Color
  | some text => Color.parse text
  | none => .ok default

/-- Reads the colors of scopes. -/
def readScopes (id : String) (scopes : List (String × String)) :
    Except ThemeError (List (String × Color)) :=
  scopes.foldlM (fun done (scope, text) =>
    match Color.parse text with
    | .ok color => .ok (insertEntry scope color done)
    | .error cause => .error (.scopeColor id scope cause)) []

/-- Reads the colors of a theme. -/
def ofSource (id : String) (s : Source) : Except ThemeError Theme := do
  let read (color : Except ColorError Color) : Except ThemeError Color :=
    color.mapError (.color id)
  let background ← read (Color.parse s.background)
  let foreground ← read (Color.parse s.foreground)
  let scopes ← readScopes id s.scopes
  return {
    id, name := s.name, kind := s.kind, background, foreground, scopes
    lineNumber := ← read (readOr { foreground with alpha := 0x80 } s.lineNumber)
    highlightedLine := ← read (readOr (defaultHighlight s.kind) s.highlightedLine)
    titleBackground := ← read (readOr background s.titleBackground) }

/-- Reads a theme file with a reader of YAML. -/
def parseWith (read : String → Option Yaml.Node) (id text : String) : Except ThemeError Theme :=
  match (read text).bind Source.ofNode? with
  | some s => ofSource id s
  | none => .error (.malformed id)

/-- Reads a theme file. -/
def parse (id text : String) : Except ThemeError Theme :=
  parseWith Yaml.parse? id text

/-- The color of a scope: its own, or else that of the longest ancestor that has one. -/
def colorFor (t : Theme) (scope : String) : Option Color :=
  Syntax.inScope? (fun name => t.scopes.lookup (String.ofList name)) scope.toList

/-- The built-in theme with an id. -/
def ofBuiltin (id : String) : Except ThemeError Theme :=
  match builtin? id with
  | some s => ofSource id s
  | none => .error (.notFound id)

end Theme

end CodeFence
