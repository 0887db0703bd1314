import CodeFence.Files.Path

/-!
# A store of files

The state of the files as a value: every file and directory under the names that lead to it.
Reading and writing go through paths, which are followed name by name; every name but the last has
to be a directory.

* `decode_encode`: a file written from a text reads back as that text.
-/

namespace CodeFence

/-- What a name leads to. -/
inductive FileEntry where
  | file (content : ByteArray)
  | directory

/-- Files are the same if they hold the same bytes. -/
instance : DecidableEq FileEntry
  | .file a, .file b =>
    if h : a.data = b.data then isTrue (congrArg FileEntry.file (ByteArray.ext h))
    else isFalse fun e => h (congrArg ByteArray.data (FileEntry.file.inj e))
  | .directory, .directory => isTrue rfl
  | .file _, .directory => isFalse FileEntry.noConfusion
  | .directory, .file _ => isFalse FileEntry.noConfusion

/-- All files and directories.  The root directory is always there. -/
structure FileStore where
  entries : List (List String × FileEntry) := []
  /-- Where a relative path starts. -/
  workingDirectory : String := "/"

/-- Why a file operation did not take place. -/
inductive FileError where
  | notFound
  | alreadyExists
  | notDirectory
  | isDirectory
  | notText
  deriving DecidableEq

/-- The wording of an error. -/
def FileError.message : FileError → String
  | notFound => "No such file or directory (os error 2)"
  | alreadyExists => "File exists (os error 17)"
  | notDirectory => "Not a directory (os error 20)"
  | isDirectory => "Is a directory (os error 21)"
  | notText => "stream did not contain valid UTF-8"

namespace FileStore

/-- What the given names lead to. -/
def find? (s : FileStore) (names : List String) : Option FileEntry :=
  if names.isEmpty then some .directory else s.entries.lookup names

/-- Whether the given names lead to a directory. -/
def isDirectoryAt (s : FileStore) (names : List String) : Bool :=
  s.find? names = some .directory

/-- Follows the parts of a path from the directory `here`; only directories can be left. -/
def follow (s : FileStore) (here : List String) : List String → Except FileError (List String)
  | [] => .ok here
  | part :: rest =>
    match s.find? here with
    | none => .error .notFound
    | some (.file _) => .error .notDirectory
    | some .directory =>
      if part = "" ∨ part = "." then s.follow here rest
      else if part = ".." then s.follow here.dropLast rest
      else s.follow (here ++ [part]) rest

/-- The names that a path leads along.  The last one may lead nowhere. -/
def resolve (s : FileStore) (path : String) : Except FileError (List String) :=
  if path = "" then .error .notFound
  else s.follow [] (Path.parts (Path.join s.workingDirectory path))

/-- What a path leads to. -/
def get (s : FileStore) (path : String) : Except FileError FileEntry := do
  match s.find? (← s.resolve path) with
  | some e => return e
  | none => throw .notFound

/-- Whether a path leads to a file. -/
def isFile (s : FileStore) (path : String) : Bool :=
  match s.get path with
  | .ok (.file _) => true
  | _ => false

/-- The content of a file. -/
def read (s : FileStore) (path : String) : Except FileError ByteArray := do
  match ← s.get path with
  | .file content => return content
  | .directory => throw .isDirectory

/-- The text of a file. -/
def readText (s : FileStore) (path : String) : Except FileError String := do
  match String.fromUTF8? (← s.read path) with
  | some text => return text
  | none => throw .notText

/-- The names in a directory, in order. -/
def list? (s : FileStore) (path : String) : Option (List String) :=
  match s.resolve path with
  | .error _ => none
  | .ok here =>
    if s.isDirectoryAt here then
      some ((s.entries.filterMap fun (names, _) =>
        if names.dropLast = here then names.getLast? else none).mergeSort (· ≤ ·))
    else none

/-- The store with an entry put in place. -/
def put (s : FileStore) (names : List String) (e : FileEntry) : FileStore :=
  { s with
    entries :=
      if s.entries.any (·.1 = names) then
        s.entries.map fun (n, old) => if n = names then (n, e) else (n, old)
      else s.entries ++ [(names, e)] }

/-- Writes a file.  The directory has to be there, and the path may not lead to a directory. -/
def write (s : FileStore) (path : String) (content : ByteArray) : Except FileError FileStore := do
  let names ← s.resolve path
  match s.find? names with
  | some .directory => throw .isDirectory
  | _ => return s.put names (.file content)

/-- Writes a text to a file. -/
def writeText (s : FileStore) (path text : String) : Except FileError FileStore :=
  s.write path text.toUTF8

/-- Follows the parts of a path and makes every directory on the way that is missing. -/
def makeAlong (s : FileStore) (here : List String) : List String → Except FileError FileStore
  | [] => .ok s
  | part :: rest =>
    if part = "" ∨ part = "." then s.makeAlong here rest
    else if part = ".." then s.makeAlong here.dropLast rest
    else
      let here := here ++ [part]
      match s.find? here with
      | some .directory => s.makeAlong here rest
      | some (.file _) => .error (if rest.isEmpty then .alreadyExists else .notDirectory)
      | none => (s.put here .directory).makeAlong here rest

/-- Makes a directory and every directory on the way to it. -/
def makeDirectories (s : FileStore) (path : String) : Except FileError FileStore :=
  if path = "" then .ok s
  else s.makeAlong [] (Path.parts (Path.join s.workingDirectory path))

/-- A file written from a text reads back as that text. -/
theorem decode_encode (text : String) : String.fromUTF8? text.toUTF8 = some text := by
  simp only [String.fromUTF8?]
  exact dif_pos text.isValidUTF8

end FileStore

end CodeFence
