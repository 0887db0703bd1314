import CodeFence.Settings.Heal

/-!
# The file of settings

Loading heals what it finds and writes the healed settings back.  A file that is not JSON is copied
before it is replaced.
-/

namespace CodeFence.Settings

/-- What a load came to. -/
structure Loaded where
  settings : Settings
  /-- The keys for which a default or nothing was taken. -/
  repaired : List String := []
  /-- Whether the healed settings were written back. -/
  saved : Bool := false

/-- A file operation that failed, and the path for which it did. -/
structure SaveError where
  path : String
  cause : FileError
  deriving DecidableEq

/-- The wording of an error. -/
def SaveError.message (e : SaveError) : String :=
  e.path ++ ": " ++ e.cause.message

/-- The copy of a file that is about to be replaced. -/
def backupPath (path : String) : String :=
  path ++ ".bak"

/-- Writes settings to a file, and makes the directories on the way to it.  A store comes back even
if the file cannot be written, for directories may have been made. -/
def save (files : FileStore) (path : String) (s : Settings) :
    FileStore × Except SaveError Unit :=
  let parent := (Path.parent? path).getD ""
  match files.makeDirectories parent with
  | .error cause => (files, .error ⟨parent, cause⟩)
  | .ok files =>
    match files.writeText path s.render with
    | .ok files => (files, .ok ())
    | .error cause => (files, .error ⟨path, cause⟩)

/-- Copies a file if that can be done. -/
def backUp (files : FileStore) (path text : String) : FileStore :=
  match files.writeText (backupPath path) text with
  | .ok files => files
  | .error _ => files

/-- Writes settings back if anything was repaired in them. -/
def finish (files : FileStore) (path : String) (s : Settings) (repaired : List String) :
    Loaded × FileStore :=
  if repaired.isEmpty then ({ settings := s }, files)
  else
    let (files, outcome) := save files path s
    ({ settings := s, repaired, saved := outcome.isOk }, files)

/-- Loads settings from a file. -/
def load (environment : Environment) (files : FileStore) (path : String) : Loaded × FileStore :=
  match files.readText path with
  | .error _ => ({ settings := standard }, files)
  | .ok text =>
    match Json.parse? text with
    | some v =>
      let (s, repaired) := heal ⟨files, environment⟩ v
      finish files path s repaired
    | none => finish (backUp files path text) path standard ["*"]

end CodeFence.Settings
