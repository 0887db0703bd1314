import CodeFence.Block.Language
import CodeFence.Text.Split

/-!
# Inline code with a language

A code span may name its language in front: `{js} code`, `js: code` or `[js] code`.  The code may
not be blank and lies on one line; the blanks around it do not count.
-/

namespace CodeFence

/-- A code span that names its language. -/
structure InlineCode where
  language : String
  code : String
  deriving DecidableEq

namespace InlineCode

/-- Whether a character may stand in the name of a language. -/
def isNameChar (c : Char) : Bool :=
  c.isAlphanum || c = '_'

/-- What stands before and behind the name in each of the three forms. -/
def delimiters : List (List Char × Char) :=
  [(['\x7b'], '\x7d'), ([], ':'), (['['], ']')]

/-- Reads a text of the form with the given delimiters. -/
def ofForm? (opening : List Char) (closing : Char) (text : List Char) : Option InlineCode :=
  match Text.after? opening text with
  | none => none
  | some text =>
    let name := text.takeWhile isNameChar
    match text.dropWhile isNameChar with
    | c :: rest =>
      let code := Text.trimStart rest
      if c = closing && !name.isEmpty && !code.isEmpty && !code.contains '\n' then
        some ⟨canonicalLanguage (String.ofList name), String.ofList (Text.trimEnd code)⟩
      else none
    | [] => none

/-- Reads a code span that names its language. -/
def parse? (text : String) : Option InlineCode :=
  delimiters.findSome? fun (opening, closing) => ofForm? opening closing text.toList

end InlineCode

end CodeFence
