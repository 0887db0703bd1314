import CodeFence.Text.Blank

/-!
# The words of an info string

An info string is cut at its blanks, except inside a quoted span.  A span runs from a quote to the
next quote of the same kind; a backslash keeps the character behind it from opening or closing
one.  Quotes and backslashes stay in the word.
-/

namespace CodeFence.InfoString

/-- Whether a character opens a quoted span. -/
def isQuote (c : Char) : Bool :=
  c = '"' || c = '\''

/-- Ends the word that is being read, if it has begun; words and characters are latest first. -/
def endWord (done : List (List Char)) (current : List Char) : List (List Char) :=
  if current.isEmpty then done else current.reverse :: done

/-- Cuts a text behind the words that are done and the word that is being read, both latest first,
inside the span that `quote` opened. -/
def wordsAfter (done : List (List Char)) (current : List Char) (quote : Option Char) :
    List Char → List (List Char)
  | [] => (endWord done current).reverse
  | '\\' :: c :: rest => wordsAfter done (c :: '\\' :: current) quote rest
  | c :: rest =>
    match quote with
    | some q => wordsAfter done (c :: current) (if c = q then none else quote) rest
    | none =>
      if isQuote c then wordsAfter done (c :: current) (some c) rest
      else if Text.isBlank c then wordsAfter (endWord done current) [] none rest
      else wordsAfter done (c :: current) none rest

/-- The words of an info string. -/
def wordChars (cs : List Char) : List (List Char) :=
  wordsAfter [] [] none cs

/-- The words of an info string, as strings. -/
def words (info : String) : List String :=
  (wordChars info.toList).map String.ofList

end CodeFence.InfoString
