import CodeFence.Text.Split

/-!
# Paths

A path is a text of names between slashes.  Joining keeps the text of both parts; a path that begins
with a slash stands for itself wherever it is joined.
-/

namespace CodeFence.Path

/-- Whether a path does not depend on where it is used. -/
def isAbsolute (path : String) : Bool :=
  path.toList.head? = some '/'

/-- The path that `path` is when it is used in a directory. -/
def join (directory path : String) : String :=
  if isAbsolute path || directory.isEmpty then path
  else if directory.toList.getLast? = some '/' then directory ++ path
  else directory ++ "/" ++ path

/-- The names and other parts between the slashes of a path. -/
def parts (path : String) : List String :=
  (Text.splitAt '/' path.toList).map String.ofList

/-- The names of a path that say where it leads; empty ones and single dots do not. -/
def names (path : String) : List String :=
  (parts path).filter fun n => n ≠ "" && n ≠ "."

/-- What a path is made of: the root or a single dot where it begins with one, and its names.  Paths
that are made of the same are the same, however many slashes and dots they are written with. -/
def components (path : String) : List String :=
  (if isAbsolute path then ["/"] else if (parts path).head? = some "." then ["."] else []) ++
    names path

/-- The last name of a path, unless it leads upward. -/
def fileName? (path : String) : Option String :=
  match (names path).getLast? with
  | some ".." | none => none
  | some name => some name

/-- The directory that a path lies in, unless it is the root or empty. -/
def parent? (path : String) : Option String :=
  let dropSlashes (cs : List Char) : List Char := cs.dropWhile (· = '/')
  match dropSlashes path.toList.reverse with
  | [] => none
  | cs =>
    let rest := dropSlashes (cs.dropWhile (· ≠ '/'))
    some (if rest.isEmpty && isAbsolute path then "/" else String.ofList rest.reverse)

/-- What stands before and behind the last dot of a file name.  A dot at the front does not
count. -/
def splitName (name : String) : String × Option String :=
  match Text.cutAround? ['.'] name.toList.reverse with
  | some (_, []) | none => (name, none)
  | some (ending, stem) =>
    (String.ofList stem.reverse, some (String.ofList ending.reverse))

/-- The name of a file without its ending. -/
def stem (name : String) : String :=
  (splitName name).1

/-- The ending of a file name. -/
def ending? (name : String) : Option String :=
  (splitName name).2

end CodeFence.Path
