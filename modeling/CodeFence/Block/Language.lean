import CodeFence.Text.Case
import CodeFence.Text.Blank

/-!
# Language names in info strings

The first word of an info string names a language.  Its canonical form is in lower case, has no
blanks around it and is never empty; common abbreviations stand for the full name.
-/

namespace CodeFence

/-- The language of a block about which nothing is known. -/
def plainText : String := "text"

/-- Abbreviations and what they stand for. -/
def languageAbbreviations : List (String × String) :=
  [("js", "javascript"), ("mjs", "javascript"), ("cjs", "javascript"), ("jsx", "javascript"),
   ("ts", "typescript"), ("tsx", "typescript"), ("py", "python"), ("rb", "ruby"),
   ("sh", "shell"), ("bash", "shell"), ("zsh", "shell"), ("fish", "shell"),
   ("ps1", "powershell"), ("pwsh", "powershell"), ("yml", "yaml"), ("md", "markdown")]

/-- The canonical form of a language name. -/
def canonicalLanguage (name : String) : String :=
  let lowered := String.ofList (Text.lower (Text.trim name.toList))
  if lowered = "" then plainText else (languageAbbreviations.lookup lowered).getD lowered

end CodeFence
