import CodeFence.CommandLine.Run

/-!
# The program

Takes the files that a command can touch into a store, runs the command on it, and writes back what
has changed.
-/

namespace CodeFence.Main

/-- The place of a file or directory. -/
def placeOf (names : List String) : String :=
  "/" ++ "/".intercalate names

/-- Takes a file or a directory without what is in it into the store, and says whether there is one
to go on from. -/
def takeEntry (files : FileStore) (names : List String) : IO (FileStore × Bool) := do
  let place := (← IO.currentDir) / placeOf names
  if ← place.isDir then return (files.put names .directory, true)
  else if ← place.pathExists then
    return (files.put names (.file (← IO.FS.readBinFile place)), false)
  else return (files, false)

/-- Takes everything along the parts of a path into the store. -/
def takeAlong (files : FileStore) (here : List String) : List String → IO FileStore
  | [] => return files
  | part :: rest =>
    if part = "" ∨ part = "." then takeAlong files here rest
    else if part = ".." then takeAlong files here.dropLast rest
    else do
      let (files, isDirectory) ← takeEntry files (here ++ [part])
      if isDirectory then takeAlong files (here ++ [part]) rest else return files

/-- Takes what a path leads to into the store. -/
def takePath (files : FileStore) (path : String) : IO FileStore :=
  takeAlong files [] (Path.parts (Path.join files.workingDirectory path))

/-- Takes a directory and the files in it into the store. -/
def takeDirectory (files : FileStore) (path : String) : IO FileStore := do
  let files ← takePath files path
  match files.resolve path with
  | .error _ => return files
  | .ok names =>
    let place := (← IO.currentDir) / placeOf names
    if ← place.isDir then
      (← place.readDir).foldlM (fun files e => takePath files (Path.join path e.fileName)) files
    else return files

/-- The files that a command reads or writes, apart from themes. -/
def pathsOf (environment : Environment) (i : CommandLine.Invocation) : List String :=
  let settingsFiles := (i.settingsFileIn environment).toList
  let own := match i.command with
    | .render r => r.input :: r.output.toList
    | .importSettings file => [file]
    | _ => []
  settingsFiles ++ settingsFiles.map Settings.backupPath ++ environment.logsDirectory.toList ++ own

/-- The directories of themes that the settings of a command name. -/
def themeDirectoriesOf (around : Surroundings) (i : CommandLine.Invocation) : List String :=
  let environment := around.environment
  let loaded := (i.settingsFileIn environment).toList.map fun path =>
    (Settings.load environment around.files path).1.settings
  let imported := match i.command with
    | .importSettings file =>
      match around.files.readText file with
      | .ok text => (Settings.importText around text).toOption.toList.map Prod.fst
      | .error _ => []
    | _ => []
  (loaded ++ imported).flatMap fun s => s.themeDirectories environment

/-- The files that a command can touch. -/
def takeFiles (environment : Environment) (args : List String) : IO FileStore := do
  let start : FileStore := { workingDirectory := toString (← IO.currentDir) }
  match CommandLine.parse args with
  | .error _ => return start
  | .ok i =>
    let files ← (pathsOf environment i).foldlM takePath start
    (themeDirectoriesOf ⟨files, environment⟩ i).foldlM takeDirectory files

/-- Writes what is different from the files as they were. -/
def writeBack (old new : FileStore) : IO Unit :=
  new.entries.forM fun (names, entry) => do
    unless old.find? names = some entry do
      match entry with
      | .directory => IO.FS.createDirAll (placeOf names)
      | .file content => IO.FS.writeBinFile (placeOf names) content

end CodeFence.Main

open CodeFence in
/-- Runs the program on its arguments. -/
def main (args : List String) : IO UInt32 := do
  let environment : Environment :=
    { configHome := ← IO.getEnv "XDG_CONFIG_HOME", home := ← IO.getEnv "HOME" }
  let files ← Main.takeFiles environment args
  let (report, after) := CommandLine.run ⟨files, environment⟩ args
  Main.writeBack files after
  report.messages.forM fun m => IO.eprintln m
  IO.print report.output
  return report.exitCode.toUInt32
