import CodeFence.Files.Store
import CodeFence.Theme.Basic

/-!
# Looking for themes

Themes of the user lie in directories, one file each, named for the id of the theme.  The first
directory that has a file for an id wins, and any file wins over a built-in theme.
-/

namespace CodeFence.Theme

/-- Where a theme comes from. -/
inductive Origin where
  | user
  | builtin
  deriving DecidableEq

/-- A theme in a list of themes. -/
structure Listing where
  id : String
  name : String
  origin : Origin
  deriving DecidableEq

/-- Whether an id can only name a file directly in a directory. -/
def isSafeId (id : String) : Bool :=
  !id.isEmpty &&
    id.toList.all (fun c => c.isAlphanum || c = '-' || c = '_' || c = '.') &&
    !Text.contains ['.', '.'] id.toList

/-- The endings of theme files, the preferred one first. -/
def endings : List String :=
  ["yaml", "yml"]

/-- The files that may hold a theme, the preferred one first. -/
def candidates (id : String) (directories : List String) : List String :=
  directories.flatMap fun d => endings.map fun e => Path.join d (id ++ "." ++ e)

/-- The file of a user's theme. -/
def findFile? (files : FileStore) (id : String) (directories : List String) : Option String :=
  if isSafeId id then (candidates id directories).find? files.isFile else none

/-- Whether there is a theme with an id. -/
def isKnown (files : FileStore) (id : String) (directories : List String) : Bool :=
  (builtin? id).isSome || (findFile? files id directories).isSome

/-- The theme with an id. -/
def load (files : FileStore) (id : String) (directories : List String) :
    Except ThemeError Theme :=
  match findFile? files id directories with
  | none => ofBuiltin id
  | some path =>
    match files.readText path with
    | .ok text => parse id text
    | .error _ => .error (.unreadable id path)

/-- The text without marks of one kind on either side. -/
def dropAround (mark : Char) (cs : List Char) : List Char :=
  ((cs.dropWhile (· = mark)).reverse.dropWhile (· = mark)).reverse

/-- The name that the first line about a name gives, without quotes around it. -/
def nameIn? (text : List Char) : Option String :=
  (Text.lines text).findSome? fun line =>
    (Text.after? "name:".toList (Text.trim line)).map fun value =>
      String.ofList (dropAround '\'' (dropAround '"' (Text.trim value)))

/-- Adds the themes of one directory to a list, except those whose ids are in it already. -/
def listDirectory (files : FileStore) (done : List Listing) (directory : String) : List Listing :=
  ((files.list? directory).getD []).foldl (fun done name =>
    let id := Path.stem name
    if (Path.ending? name).any endings.contains && !done.any (·.id = id) then
      let shown :=
        match files.readText (Path.join directory name) with
        | .ok text => nameIn? text.toList
        | .error _ => none
      done ++ [⟨id, shown.getD id, .user⟩]
    else done) done

/-- All themes: those in the directories, then the built-in ones that no file replaces. -/
def list (files : FileStore) (directories : List String) : List Listing :=
  let users := directories.foldl (listDirectory files) []
  users ++ (builtins.filter fun (id, _) => !users.any (·.id = id)).map fun (id, s) =>
    ⟨id, s.name, .builtin⟩

end CodeFence.Theme
