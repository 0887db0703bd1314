import CodeFence.Engine.Basic
import CodeFence.Syntax.Grammars
import CodeFence.Theme.Lookup

/-!
# The bundled engine

Grammars color the words of a source, and a theme gives the colors.  Themes are read from their
files when they are loaded, and forgotten when the directories of themes change.
-/

namespace CodeFence

open Markup

/-- The state of the bundled engine. -/
structure Bundled where
  grammars : Syntax.Grammars := {}
  themes : List (String × Theme) := []
  directories : List String := []

namespace Bundled

/-- The state with the theme directories of some settings, and nothing loaded. -/
def ofSettings (around : Surroundings) (s : Settings) : Bundled :=
  { directories := s.themeDirectories around.environment }

/-- Appends text to nodes, joining it with text at their end. -/
def appendText (piece : String) : List Node → List Node
  | [] => [.text piece]
  | [.text value] => [.text (value ++ piece)]
  | n :: rest => n :: appendText piece rest

/-- The color of a segment, if its scope has one. -/
def segmentColor (theme : Theme) (s : Syntax.Segment) : Option Color := do
  theme.colorFor (← Syntax.scopeName? (← s.scope))

/-- Appends a piece of a line in its color. -/
def appendPiece (nodes : List Node) (piece : String) : Option Color → List Node
  | none => appendText piece nodes
  | some color =>
    nodes ++ [.element "span" [("style", "color: " ++ color.toCss)] [.text piece]]

/-- The element of a line whose tokens are known. -/
def renderLine (theme : Theme) (tokens : List Syntax.Token) (line : List Char) : Element :=
  let pieces := (Syntax.segments tokens line.length).foldl (fun nodes s =>
    let piece := (line.drop s.start).take (s.stop - s.start)
    appendPiece nodes (String.ofList piece) (segmentColor theme s)) []
  { tag := "span", attrs := [("class", lineClass)], children := pieces }

/-- The colors of a theme as style declarations. -/
def themeStyle (theme : Theme) : String :=
  "background-color: " ++ theme.background.toCss ++ "; color: " ++ theme.foreground.toCss ++
    "; --fencelight-line-number: " ++ theme.lineNumber.toCss ++
    "; --fencelight-highlighted-line: " ++ theme.highlightedLine.toCss ++
    "; --fencelight-title-background: " ++ theme.titleBackground.toCss

/-- The block that shows a source in the colors of a theme. -/
def renderDocument (code : String) (highlights : Syntax.Highlights) (theme : Theme) : Document :=
  let pre := ((({ tag := "pre" } : Element).withClass "fencelight").withClass theme.id).withAttr
    "data-theme" theme.id |>.withAttr "style" (themeStyle theme)
  Document.ofLines pre ((displayLines code.toList).mapIdx fun row line =>
    renderLine theme (highlights.onRow row) line)

/-- Loads a grammar. -/
def loadLanguage (language : String) (b : Bundled) : Except EngineError Unit × Bundled :=
  match Syntax.Language.ofId? language with
  | none => (.error (.languageUnusable language "no grammar"), b)
  | some l => (.ok (), { b with grammars := b.grammars.load l })

/-- Loads a theme. -/
def loadTheme (around : Surroundings) (id : String) (b : Bundled) :
    Except EngineError Unit × Bundled :=
  if (b.themes.lookup id).isSome then (.ok (), b)
  else match Theme.load around.files id b.directories with
    | .ok theme => (.ok (), { b with themes := (id, theme) :: b.themes })
    | .error (.notFound id) => (.error (.themeNotFound id), b)
    | .error e => (.error (.other e.message), b)

/-- Loading a theme does nothing if the theme is there; else it puts in front of the others what
is read, or fails as the reading fails and changes nothing. -/
theorem loadTheme_cases (around : Surroundings) (id : String) (b : Bundled) :
    (∃ t, b.themes.lookup id = some t ∧ loadTheme around id b = (.ok (), b)) ∨
      b.themes.lookup id = none ∧
        ((∃ t, Theme.load around.files id b.directories = .ok t ∧
            loadTheme around id b = (.ok (), { b with themes := (id, t) :: b.themes })) ∨
          ∃ e error, Theme.load around.files id b.directories = .error e ∧
            loadTheme around id b = (.error error, b) ∧
            ∀ x, error = .themeNotFound x ↔ e = .notFound x) := by
  unfold loadTheme
  cases hheld : b.themes.lookup id with
  | some t => exact Or.inl ⟨t, rfl, rfl⟩
  | none =>
    refine Or.inr ⟨rfl, ?_⟩
    cases Theme.load around.files id b.directories with
    | ok t => exact Or.inl ⟨t, rfl, rfl⟩
    | error e => cases e <;> exact Or.inr ⟨_, _, rfl, rfl, by simp⟩

/-- Renders a source with the tokens that an analysis finds. -/
def render (analyse : Syntax.Analysis) (code language theme : String) (b : Bundled) :
    Except EngineError Document :=
  match Syntax.Language.ofId? language with
  | none => .error (.languageUnusable language "no grammar")
  | some l =>
    if b.grammars.isLoaded l then
      match b.themes.lookup theme with
      | some t => .ok (renderDocument code (b.grammars.highlightWith analyse code l) t)
      | none => .error (.themeNotFound theme)
    else .error (.languageUnusable language "not loaded")

/-- Takes the theme directories of new settings.  If these are the same, nothing is forgotten. -/
def applySettings (around : Surroundings) (s : Settings) (b : Bundled) : Bundled :=
  let directories := s.themeDirectories around.environment
  if directories.map Path.components = b.directories.map Path.components then b
  else { b with directories, themes := [] }

/-- The engine over an analysis and files that do not change. -/
def engineWith (analyse : Syntax.Analysis) (around : Surroundings) : Engine Bundled where
  supports _ l := (Syntax.Language.ofId? l).isSome
  loadLanguage := loadLanguage
  loadTheme := loadTheme around
  render code l theme b := (render analyse code l theme b, b)
  applySettings := applySettings around

/-- The bundled engine over files that do not change. -/
def engine (around : Surroundings) : Engine Bundled :=
  engineWith Syntax.analysis around

end Bundled

end CodeFence
