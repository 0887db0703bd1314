import CodeFence.CommandLine.Arguments
import CodeFence.DisplayMode

/-!
# Commands

What the program can be asked to do, and how that is asked.
-/

namespace CodeFence.CommandLine

/-- How a document is to be rendered. -/
structure RenderRequest where
  input : String
  /-- The file for the page. -/
  output : Option String := none
  mode : Option DisplayMode := none
  /-- The theme for blocks without one of their own. -/
  theme : Option String := none
  cacheEnabled : Bool := true
  deriving DecidableEq

/-- What the program can do. -/
inductive Command where
  | render (request : RenderRequest)
  /-- Show the configuration that an info string gives. -/
  | explain (info : String)
  | listThemes
  | exportSettings
  | importSettings (file : String)
  | resetSettings
  deriving DecidableEq

/-- A command with the options that every command has. -/
structure Invocation where
  command : Command
  /-- The file of settings, if it is not the standard one. -/
  settingsFile : Option String := none
  debug : Bool := false
  deriving DecidableEq

/-- Whether a text can be a path. -/
def isPath (text : String) : Bool :=
  !text.isEmpty

/-- The mode with a name. -/
def mode? (name : String) : Option DisplayMode :=
  [DisplayMode.dark, .light].find? fun m => m.name = name

/-- The options that every command has. -/
def commonOptions : List OptionForm :=
  [{ name := "settings", kind := .value isPath },
   { name := "debug" },
   { name := "help", letter := some 'h', kind := .stop .help }]

/-- What may follow the name of the program. -/
def programForm : Form where
  options := { name := "version", letter := some 'V', kind := .stop .version } :: commonOptions
  commands := ["render", "parse", "themes", "settings", "help"]

/-- What may follow `render`. -/
def renderForm : Form where
  options :=
    [{ name := "output", letter := some 'o', kind := .value isPath },
     { name := "mode", kind := .value fun v => (mode? v).isSome },
     { name := "theme", kind := .value fun _ => true },
     { name := "no-cache" }] ++ commonOptions
  arguments := [isPath]

/-- What may follow `settings`. -/
def settingsForm : Form where
  options := commonOptions
  commands := ["export", "import", "reset", "help"]

/-- What may follow a command without options of its own. -/
def plainForm (arguments : List (String → Bool)) : Form where
  options := commonOptions
  arguments

/-- The command words that may follow a command word. -/
def commandsBehind (word : String) : List String :=
  if word = "settings" then settingsForm.commands else []

/-- Whether there is help about the command that words lead to, of which the first is one of
`commands`. -/
def isTopic (commands : List String) : List String → Bool
  | [] => true
  | word :: rest => commands.contains word && isTopic (commandsBehind word) rest

/-- What results from asking for help about the command that words lead to. -/
def helpAbout (f : Form) (words : List String) : Refusal :=
  if isTopic f.commands words then .help else .usage

/-- An invocation under the common options that have been read in one more place.  What is read
further inside counts more. -/
def Invocation.under (i : Invocation) (r : Reading) : Invocation :=
  { i with
    settingsFile := i.settingsFile.or (r.options.lookup "settings")
    debug := i.debug || r.has "debug" }

/-- The request for a rendering that has been read. -/
def renderRequest (r : Reading) : RenderRequest where
  input := r.arguments.headD ""
  output := r.options.lookup "output"
  mode := (r.options.lookup "mode").bind mode?
  theme := r.options.lookup "theme"
  cacheEnabled := !r.has "no-cache"

/-- Reads the arguments of a command without command words of its own. -/
def readCommand (f : Form) (args : List String) (command : Reading → Command) :
    Except Refusal Invocation := do
  let r ← f.read args
  return Invocation.under ⟨command r, none, false⟩ r

/-- Reads what follows `settings`. -/
def readSettingsCommand (args : List String) : Except Refusal Invocation := do
  let r ← settingsForm.read args
  let i ← match r.command with
    | some ("export", rest) => readCommand (plainForm []) rest fun _ => .exportSettings
    | some ("import", rest) =>
      readCommand (plainForm [isPath]) rest fun r => .importSettings (r.arguments.headD "")
    | some ("reset", rest) => readCommand (plainForm []) rest fun _ => .resetSettings
    | some ("help", words) => throw (helpAbout settingsForm words)
    | _ => throw .usage
  return i.under r

/-- Reads the arguments of the program. -/
def parse (args : List String) : Except Refusal Invocation := do
  let r ← programForm.read args
  let i ← match r.command with
    | some ("render", rest) => readCommand renderForm rest fun r => .render (renderRequest r)
    | some ("parse", rest) =>
      readCommand (plainForm [fun _ => true]) rest fun r => .explain (r.arguments.headD "")
    | some ("themes", rest) => readCommand (plainForm []) rest fun _ => .listThemes
    | some ("settings", rest) => readSettingsCommand rest
    | some ("help", words) => throw (helpAbout programForm words)
    | _ => throw .usage
  return i.under r

end CodeFence.CommandLine
