import CodeFence.Syntax.Grammar.Html
import CodeFence.Syntax.Grammar.Ini
import CodeFence.Syntax.Grammar.Json
import CodeFence.Syntax.Grammar.Toml
import CodeFence.Syntax.Highlights
import CodeFence.Syntax.Language

/-!
# Grammars

Which grammars have been loaded, and what they make of a source.  Plain text needs no grammar and
has no tokens.  What a grammar finds is an `Analysis`, so that nothing else depends on the grammars
that are written out here.
-/

namespace CodeFence.Syntax

/-- The captures of a source in a language. -/
def captures (code : List Char) : Language → List Capture
  | .json => JsonGrammar.captures code
  | .toml => TomlGrammar.captures code
  | .ini => IniGrammar.captures code
  | .html => HtmlGrammar.captures code
  | _ => []

/-- What grammars find in a source. -/
abbrev Analysis := (code : String) → Language → Highlights

/-- What the grammars that are written out here find in a source. -/
def analysis : Analysis := fun code l =>
  let cs := code.toList
  Highlights.ofCaptures cs (captures cs l)

/-- The grammars that have been loaded. -/
structure Grammars where
  loaded : List Language := []

namespace Grammars

/-- Whether a language can be highlighted. -/
def isLoaded (g : Grammars) (l : Language) : Bool :=
  l = .plainText || g.loaded.contains l

/-- Loads the grammar of a language. -/
def load (g : Grammars) (l : Language) : Grammars :=
  if g.isLoaded l then g else { loaded := l :: g.loaded }

/-- The tokens that an analysis finds.  There are none in plain text and before the grammar is
loaded. -/
def highlightWith (analyse : Analysis) (g : Grammars) (code : String) (l : Language) :
    Highlights :=
  if g.loaded.contains l then analyse code l else {}

/-- The tokens of a source. -/
def highlight (g : Grammars) (code : String) (l : Language) : Highlights :=
  g.highlightWith analysis code l

end Grammars

end CodeFence.Syntax
