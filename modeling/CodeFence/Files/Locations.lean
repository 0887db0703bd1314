import CodeFence.Files.Store
import CodeFence.Text.Blank

/-!
# Where things are kept

Everything lies below one configuration directory, if the environment says where that is.  Themes
are looked for in a directory of the user's choice first, and then in the standard one.
-/

namespace CodeFence

/-- What decides where the configuration directory is. -/
structure Environment where
  /-- The directory for the configuration of all programs, if one is set. -/
  configHome : Option String := none
  /-- The home directory, if one is set. -/
  home : Option String := none
  /-- The home directory of the account, if it has one. -/
  accountHome : Option String := some "/root"

namespace Environment

/-- The home directory that counts. -/
def homeDirectory (env : Environment) : Option String :=
  match env.home with
  | none | some "" => env.accountHome
  | some home => some home

/-- The configuration directory. -/
def configDirectory (env : Environment) : Option String :=
  (env.configHome.or (env.homeDirectory.map (Path.join · ".config"))).map (Path.join · "fencelight")

/-- The standard directory of themes. -/
def themesDirectory (env : Environment) : Option String :=
  env.configDirectory.map (Path.join · "themes")

/-- The file of settings. -/
def settingsFile (env : Environment) : Option String :=
  env.configDirectory.map (Path.join · "settings.json")

/-- The directory of log files. -/
def logsDirectory (env : Environment) : Option String :=
  env.configDirectory.map (Path.join · "logs")

/-- The directory of the user's own themes.  One that is not absolute lies in the configuration
directory, and is nowhere without that. -/
def customDirectory (env : Environment) (custom : String) : Option String :=
  let custom := Text.trimmed custom
  if custom = "" then none
  else if Path.isAbsolute custom then some custom
  else env.configDirectory.map (Path.join · custom)

/-- The directories in which themes are looked for, first one first. -/
def themeDirectories (env : Environment) (custom : String) : List String :=
  (env.customDirectory custom).toList ++ env.themesDirectory.toList

end Environment

/-- What lies around a run of the program: its files and its environment. -/
structure Surroundings where
  files : FileStore := {}
  environment : Environment := {}

end CodeFence
