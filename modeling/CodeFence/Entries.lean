/-!
# Entries by name

A list of named values that is kept in the order of the names, with each name once.
-/

namespace CodeFence

/-- Puts a value under a name, replacing the value that is there. -/
def insertEntry {α : Type} (name : String) (value : α) : List (String × α) → List (String × α)
  | [] => [(name, value)]
  | (n, v) :: rest =>
    if n = name then (name, value) :: rest
    else if name < n then (name, value) :: (n, v) :: rest
    else (n, v) :: insertEntry name value rest

/-- Entries in the order of their names.  Of those with one name the first one stays. -/
def inOrder {α : Type} (entries : List (String × α)) : List (String × α) :=
  entries.foldr (fun e rest => insertEntry e.1 e.2 rest) []

/-- The value under a name is the one that was put there. -/
theorem lookup_insertEntry_self {α : Type} (name : String) (value : α)
    (entries : List (String × α)) :
    (insertEntry name value entries).lookup name = some value := by
  induction entries with
  | nil => simp [insertEntry]
  | cons e rest ih =>
    obtain ⟨n, v⟩ := e
    rw [insertEntry]
    split
    · simp
    · next h =>
      split
      · simp
      · have hne : (name == n) = false := beq_false_of_ne (Ne.symm h)
        simp [List.lookup_cons, hne, ih]

/-- The value under any other name stays. -/
theorem lookup_insertEntry_of_ne {α : Type} {name other : String} (h : other ≠ name) (value : α)
    (entries : List (String × α)) :
    (insertEntry name value entries).lookup other = entries.lookup other := by
  have hne : (other == name) = false := by simpa using h
  induction entries with
  | nil => simp [insertEntry, List.lookup_cons, hne]
  | cons e rest ih =>
    obtain ⟨n, v⟩ := e
    rw [insertEntry]
    split
    · next hn =>
      subst hn
      simp [List.lookup_cons, hne]
    · split
      · simp [List.lookup_cons, hne]
      · simp [List.lookup_cons, ih]

end CodeFence
