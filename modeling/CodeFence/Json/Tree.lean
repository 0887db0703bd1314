import CodeFence.Json.Token

/-!
# What a JSON text says

`Tree` keeps a text as it is written: the entries of an object in order, a repeated key as often as
it occurs, and a string without value where an escape is only half of a pair.  It is built from the
words of the text by a machine that keeps the open arrays and objects on a stack.
-/

namespace CodeFence.Json

/-- A JSON text as it is written. -/
inductive Tree where
  | null
  | bool (value : Bool)
  | number (value : Number)
  | string (value? : Option String)
  | array (items : List Tree)
  | object (entries : List (Option String × Tree))

/-- An array or object that is still open, with what it holds so far, latest first. -/
inductive Frame where
  | array (done : List Tree)
  | object (done : List (Option String × Tree))
  | member (key : Option String)

/-- What may come next. -/
inductive Expect where
  /-- A value, or the end of an array that holds nothing yet. -/
  | item
  | value
  /-- A key, or the end of an object that holds nothing yet. -/
  | firstKey
  | key
  | colon
  /-- A comma or the end of what is open. -/
  | separator
  | nothing (whole : Tree)

/-- A text read in part: what is open, innermost first, and what may come next. -/
structure Reading where
  stack : List Frame
  expect : Expect

/-- Puts a finished value where it belongs. -/
def Reading.put (v : Tree) : List Frame → Option Reading
  | [] => some ⟨[], .nothing v⟩
  | .array done :: rest => some ⟨.array (v :: done) :: rest, .separator⟩
  | .member key :: .object done :: rest => some ⟨.object ((key, v) :: done) :: rest, .separator⟩
  | _ => none

/-- Reads a word where a value may begin. -/
def Reading.begin (stack : List Frame) : Token → Option Reading
  | .null => put .null stack
  | .bool b => put (.bool b) stack
  | .number n => put (.number n) stack
  | .string s => put (.string s) stack
  | .openArray => some ⟨.array [] :: stack, .item⟩
  | .openObject => some ⟨.object [] :: stack, .firstKey⟩
  | _ => none

/-- Reads one word. -/
def Reading.step (r : Reading) (t : Token) : Option Reading :=
  match r.expect, t, r.stack with
  | .item, .closeArray, .array _ :: rest => put (.array []) rest
  | .item, t, stack | .value, t, stack => begin stack t
  | .firstKey, .closeObject, .object _ :: rest => put (.object []) rest
  | .firstKey, .string s, stack | .key, .string s, stack => some ⟨.member s :: stack, .colon⟩
  | .colon, .colon, stack => some ⟨stack, .value⟩
  | .separator, .comma, .array done :: rest => some ⟨.array done :: rest, .value⟩
  | .separator, .comma, .object done :: rest => some ⟨.object done :: rest, .key⟩
  | .separator, .closeArray, .array done :: rest => put (.array done.reverse) rest
  | .separator, .closeObject, .object done :: rest => put (.object done.reverse) rest
  | _, _, _ => none

/-- The one value that the words of a text spell. -/
def Tree.ofTokens? (ts : List Token) : Option Tree :=
  match ts.foldlM Reading.step ⟨[], .value⟩ with
  | some ⟨_, .nothing whole⟩ => some whole
  | _ => none

/-- Reads a JSON text. -/
def Tree.parse? (text : String) : Option Tree :=
  (tokens? text.toList).bind ofTokens?

mutual

/-- How many arrays and objects stand inside one another. -/
def Tree.depth : Tree → Nat
  | .array items => 1 + depthOfItems 0 items
  | .object entries => 1 + depthOfEntries 0 entries
  | _ => 0

/-- The greatest depth among values, or `best` if that is greater. -/
def depthOfItems (best : Nat) : List Tree → Nat
  | [] => best
  | t :: rest => depthOfItems (max best t.depth) rest

/-- The greatest depth among the values of entries, or `best` if that is greater. -/
def depthOfEntries (best : Nat) : List (Option String × Tree) → Nat
  | [] => best
  | (_, t) :: rest => depthOfEntries (max best t.depth) rest

end

end CodeFence.Json
