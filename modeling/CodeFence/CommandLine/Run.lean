import CodeFence.CommandLine.Command
import CodeFence.Engine.Bundled
import CodeFence.Page.Render
import CodeFence.Settings.File
import CodeFence.Theme.Lookup

/-!
# Running commands

A run takes the files as they are and gives what is printed, the exit code and the files as they are
afterwards.  Every command loads the settings first, which may heal their file, and then makes the
directory of the log.
-/

namespace CodeFence.CommandLine

/-- What a run prints and how it ends. -/
structure Report where
  exitCode : Nat := 0
  output : String := ""
  /-- Lines for the user beside the output. -/
  messages : List String := []

/-- A run that fails. -/
def Report.failure (reason : String) : Report :=
  { exitCode := 1, messages := ["Error: " ++ reason] }

/-- The settings for one rendering. -/
def RenderRequest.adjust (r : RenderRequest) (s : Settings) : Settings :=
  let s := if r.cacheEnabled then s else { s with cacheEnabled := false }
  match r.theme with
  | some theme => { s with defaultTheme := theme, darkTheme := theme, lightTheme := theme }
  | none => s

/-- The page for a document. -/
def page (around : Surroundings) (s : Settings) (mode : Option DisplayMode) (text title : String) :
    String :=
  let start := Pipeline.start (Bundled.engine around) (Bundled.ofSettings around s) s
  let render : StateM (Pipeline Bundled) String := do
    Pipeline.preload
    Pipeline.renderPage text title 0
  (render { start with mode }).1

/-- The title of the page for a file. -/
def titleOf (path : String) : String :=
  ((Path.fileName? path).map Path.stem).getD ""

/-- Renders a document to the output or to a file. -/
def render (around : Surroundings) (s : Settings) (r : RenderRequest) : Report × FileStore :=
  let files := around.files
  match files.readText r.input with
  | .error _ => (.failure ("Failed to read " ++ r.input), files)
  | .ok text =>
    match r.theme.filter fun t => !s.hasTheme around t with
    | some theme => (.failure ("Unknown theme: " ++ theme), files)
    | none =>
      let html := page around (RenderRequest.adjust r s) r.mode text (titleOf r.input)
      match r.output with
      | none => ({ output := html }, files)
      | some path =>
        match files.writeText path html with
        | .ok files => ({}, files)
        | .error _ => (.failure ("Failed to write " ++ path), files)

/-- Shows the configuration that an info string gives, and what of it was skipped. -/
def explain (info : String) : Report :=
  let parsed := InfoString.parse info
  { output := parsed.config.toJson.render .indented ++ "\n"
    messages := parsed.warnings.map fun w => "skipped " ++ w.message }

/-- A text filled with spaces up to a width. -/
def padRight (width : Nat) (s : String) : String :=
  s ++ String.ofList (List.replicate (width - s.length) ' ')

/-- How the origin of a theme is shown. -/
def originName : Theme.Origin → String
  | .user => "user"
  | .builtin => "builtin"

/-- A line about a theme.  The default theme is marked. -/
def themeLine (s : Settings) (l : Theme.Listing) : String :=
  (if l.id = s.defaultTheme then "*" else " ") ++ " " ++ padRight 20 l.id ++ " " ++
    padRight 24 l.name ++ " " ++ originName l.origin ++ "\n"

/-- Lists all themes. -/
def listThemes (around : Surroundings) (s : Settings) : Report :=
  let themes := Theme.list around.files (s.themeDirectories around.environment)
  { output := String.join (themes.map (themeLine s)) }

/-- Saves settings, and says so behind other messages. -/
def saveSettings (files : FileStore) (path : String) (s : Settings) (messages : List String)
    (success : String) : Report × FileStore :=
  match s.save files path with
  | (files, .ok _) => ({ messages := messages ++ [success ++ path] }, files)
  | (files, .error e) => ({ exitCode := 1, messages := messages ++ ["Error: " ++ e.message] }, files)

/-- Replaces the settings by those of an export. -/
def importSettings (around : Surroundings) (path file : String) : Report × FileStore :=
  let files := around.files
  match files.readText file with
  | .error _ => (.failure ("Failed to read " ++ file), files)
  | .ok text =>
    match Settings.importText around text with
    | .error _ => (.failure ("Failed to import " ++ file), files)
    | .ok (s, repaired) =>
      let messages :=
        if repaired.isEmpty then [] else ["Replaced with defaults: " ++ ", ".intercalate repaired]
      saveSettings files path s messages "Imported settings into "

/-- Runs a command under settings that have been loaded from a file. -/
def runCommand (around : Surroundings) (s : Settings) (settingsFile : String) :
    Command → Report × FileStore
  | .render r => render around s r
  | .explain info => (explain info, around.files)
  | .listThemes => (listThemes around s, around.files)
  | .exportSettings => ({ output := s.render ++ "\n" }, around.files)
  | .importSettings file => importSettings around settingsFile file
  | .resetSettings => saveSettings around.files settingsFile {} [] "Reset settings in "

/-- The files with the directory of the log, if there is a place for it and it can be made. -/
def withLogs (around : Surroundings) : FileStore :=
  match around.environment.logsDirectory.map around.files.makeDirectories with
  | some (.ok files) => files
  | _ => around.files

/-- The file of settings of an invocation. -/
def Invocation.settingsFileIn (i : Invocation) (environment : Environment) : Option String :=
  i.settingsFile.or environment.settingsFile

/-- Loads the settings and runs a command. -/
def Invocation.run (i : Invocation) (around : Surroundings) : Report × FileStore :=
  let environment := around.environment
  match i.settingsFileIn environment with
  | none => (.failure "No config directory available", around.files)
  | some settingsFile =>
    let (loaded, files) := Settings.load environment around.files settingsFile
    let files := withLogs ⟨files, environment⟩
    runCommand ⟨files, environment⟩ loaded.settings settingsFile i.command

/-- How the program is used. -/
def usageText : String :=
  "Usage: fencelight [--settings PATH] [--debug] COMMAND\n\n" ++
    "  render FILE [-o OUT] [--mode dark|light] [--theme ID] [--no-cache]\n" ++
    "  parse ANNOTATION\n" ++
    "  themes\n" ++
    "  settings export | import FILE | reset\n"

/-- What is printed when no command results from the arguments. -/
def Refusal.report : Refusal → Report
  | .usage => { exitCode := 2, messages := [usageText] }
  | .version => { output := "fencelight 0.1.0\n" }
  | .help => { output := usageText }

/-- Runs the program. -/
def run (around : Surroundings) (args : List String) : Report × FileStore :=
  match parse args with
  | .ok i => Invocation.run i around
  | .error refusal => (refusal.report, around.files)

end CodeFence.CommandLine
