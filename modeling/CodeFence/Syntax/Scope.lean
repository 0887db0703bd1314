/-!
# Scopes

A scope is a dotted name for a kind of word, such as `keyword.return`.  A scope without an entry of
its own is served by the longest ancestor that has one.
-/

namespace CodeFence.Syntax

/-- What stands before the last dot of a name, if it has a dot. -/
def parentScope? (name : List Char) : Option (List Char) :=
  match name.reverse.dropWhile (· ≠ '.') with
  | [] => none
  | _ :: before => some before.reverse

theorem length_of_parentScope? {name parent : List Char} (h : parentScope? name = some parent) :
    parent.length < name.length := by
  unfold parentScope? at h
  split at h
  · simp at h
  · next before hb =>
    have := (List.dropWhile_suffix (l := name.reverse) (· ≠ '.')).length_le
    rw [hb] at this
    obtain rfl : before.reverse = parent := by simpa using h
    simp only [List.length_cons, List.length_reverse] at *
    omega

/-- The first answer among a scope and its ancestors, longest first. -/
def inScope? {α : Type} (find : List Char → Option α) (name : List Char) : Option α :=
  match find name with
  | some a => some a
  | none =>
    match h : parentScope? name with
    | some parent =>
      have := length_of_parentScope? h
      inScope? find parent
    | none => none
termination_by name.length

/-- The scopes that words of source are sorted into. -/
def scopes : List String :=
  ["attribute", "boolean", "comment", "constant", "constant.builtin", "constructor", "escape",
   "function", "function.builtin", "function.method", "keyword", "keyword.return",
   "keyword.function", "keyword.operator", "label", "number", "operator", "property",
   "punctuation", "punctuation.bracket", "punctuation.delimiter", "punctuation.special", "string",
   "string.special", "tag", "tag.attribute", "type", "type.builtin", "variable",
   "variable.builtin", "variable.parameter"]

/-- The place of the scope that serves a capture name. -/
def scopeId? (capture : String) : Option Nat :=
  inScope? (fun name => scopes.findIdx? (·.toList = name)) capture.toList

/-- The scope at a place. -/
def scopeName? (id : Nat) : Option String :=
  scopes[id]?

end CodeFence.Syntax
