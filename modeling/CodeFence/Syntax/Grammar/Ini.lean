import CodeFence.Syntax.Lexeme

/-!
# The grammar of INI files

Lines that are sections, settings or comments.  A comment goes on through the newline that ends it
and is none without it, a section name is everything between its brackets, and a setting has a name,
an equals sign and a value, which has no name of its own.
-/

namespace CodeFence.Syntax.IniGrammar

/-- Where in a line a lexeme begins. -/
inductive Place where
  | start
  /-- Between the brackets of a section. -/
  | sectionName
  /-- Behind the name of a setting or behind a section. -/
  | behindName
  | value
  /-- In the last line behind the mark of a comment that no newline ends. -/
  | openComment
  deriving DecidableEq

/-- Whether a character may stand in the name of a setting. -/
def isNameChar (c : Char) : Bool :=
  !(c = ';' || c = '#' || c = '=' || c = '[' || c = ' ' ||
    (decide (0x09 ≤ c.toNat) && decide (c.toNat ≤ 0x0D)))

/-- The name at the beginning of a text: words between which there are spaces only. -/
def nameLength (cs : List Char) : Nat :=
  ((cs.takeWhile fun c => isNameChar c || c = ' ').reverse.dropWhile (· = ' ')).length

/-- The first lexeme of a source, with the name of its capture. -/
def next (place : Place) (c : Char) (rest : List Char) : Cut Place (Option String) :=
  match place, c with
  | _, '\n' => ⟨none, 1, .start⟩
  | .value, _ => ⟨none, 1 + runLength (· ≠ '\n') rest, .value⟩
  | .sectionName, ']' => ⟨some "punctuation.bracket", 1, .behindName⟩
  | .sectionName, _ =>
    ⟨some "type", 1 + runLength (fun c => c ≠ '[' && c ≠ ']') rest, .sectionName⟩
  | .openComment, '=' => ⟨some "operator", 1, .openComment⟩
  | .openComment, '[' => ⟨some "punctuation.bracket", 1, .sectionName⟩
  | .openComment, ']' => ⟨some "punctuation.bracket", 1, .openComment⟩
  | .openComment, _ => ⟨none, 1, .openComment⟩
  | _, ';' | _, '#' =>
    if rest.contains '\n' then ⟨some "comment", 1 + lengthThrough ['\n'] rest, .start⟩
    else ⟨none, 1, .openComment⟩
  | .behindName, '=' => ⟨some "operator", 1, .value⟩
  | .start, '[' => ⟨some "punctuation.bracket", 1, .sectionName⟩
  | .start, c =>
    if isNameChar c then ⟨some "property", nameLength (c :: rest), .behindName⟩
    else ⟨none, 1, .start⟩
  | .behindName, _ => ⟨none, 1, .behindName⟩

/-- The captures of a source. -/
def captures (code : List Char) : List Capture :=
  (lexemes next .start code).filterMap fun l => l.kind.map l.capture

end CodeFence.Syntax.IniGrammar
