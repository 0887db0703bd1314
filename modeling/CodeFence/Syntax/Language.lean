import CodeFence.Text.Case

/-!
# Known languages

The languages for which there is a grammar, and plain text, which needs none.
-/

namespace CodeFence.Syntax

/-- A known language. -/
inductive Language where
  | plainText | yaml | rust | html | css | javaScript | typeScript | tsx | json | toml | python
  | go | php | c | cpp | java | bash | scheme | ini | xml
  deriving DecidableEq

namespace Language

/-- Every known language, plain text first. -/
def all : List Language :=
  [plainText, yaml, rust, html, css, javaScript, typeScript, tsx, json, toml, python, go, php, c,
   cpp, java, bash, scheme, ini, xml]

/-- The name by which a language is asked for. -/
def id : Language → String
  | plainText => "text"
  | yaml => "yaml"
  | rust => "rust"
  | html => "html"
  | css => "css"
  | javaScript => "javascript"
  | typeScript => "typescript"
  | tsx => "tsx"
  | json => "json"
  | toml => "toml"
  | python => "python"
  | go => "go"
  | php => "php"
  | c => "c"
  | cpp => "cpp"
  | java => "java"
  | bash => "bash"
  | scheme => "scheme"
  | ini => "ini"
  | xml => "xml"

/-- The name by which a language is shown. -/
def displayName : Language → String
  | plainText => "Plain Text"
  | yaml => "YAML"
  | rust => "Rust"
  | html => "HTML"
  | css => "CSS"
  | javaScript => "JavaScript"
  | typeScript => "TypeScript"
  | tsx => "TSX"
  | json => "JSON"
  | toml => "TOML"
  | python => "Python"
  | go => "Go"
  | php => "PHP"
  | c => "C"
  | cpp => "C++"
  | java => "Java"
  | bash => "Bash"
  | scheme => "Scheme"
  | ini => "INI"
  | xml => "XML"

/-- The language with a name, to the letter. -/
def ofId? (name : String) : Option Language :=
  all.find? (·.id = name)

theorem mem_all (l : Language) : l ∈ all := by
  cases l <;> decide

theorem ofId?_id (l : Language) : ofId? l.id = some l := by
  cases l <;> decide

end Language

/-- How a language name is shown; one that is not known has its first letter put in upper case. -/
def displayName (name : String) : String :=
  match Language.ofId? name with
  | some l => l.displayName
  | none => String.ofList (Text.capitalize name.toList)

end CodeFence.Syntax
