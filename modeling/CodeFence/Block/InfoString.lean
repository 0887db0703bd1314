import CodeFence.Block.Config
import CodeFence.Block.LineSpec
import CodeFence.Block.Words

/-!
# Info strings

The info string of a fenced block names a language and then gives directives, each of them one word.
A directive says which changes it makes and, if some part of it cannot be applied, why; no directive
can keep another one from taking effect.
-/

namespace CodeFence.InfoString

/-- Why a directive, or a part of it, was not applied. -/
inductive SkipReason where
  /-- Fragments that are neither a line nor an ascending range. -/
  | invalidLineSpec (fragments : List String)
  /-- A value of `ln:` that is neither a truth value nor a line number. -/
  | invalidLineNumber (value : String)
  /-- A first line below one, in whose place one was taken. -/
  | lineNumberClamped (value : Int)
  | emptyValue
  | unrecognized
  deriving DecidableEq

/-- The wording of a reason. -/
def SkipReason.message : SkipReason → String
  | .invalidLineSpec fragments => "invalid line spec: " ++ ", ".intercalate fragments
  | .invalidLineNumber value => "invalid line number: " ++ value
  | .lineNumberClamped value => "start line " ++ toString value ++ " raised to 1"
  | .emptyValue => "missing value"
  | .unrecognized => "unrecognized directive"

/-- A directive that was not applied in full. -/
structure Warning where
  directive : String
  reason : SkipReason
  deriving DecidableEq

/-- The wording of a warning. -/
def Warning.message (w : Warning) : String :=
  w.directive ++ ": " ++ w.reason.message

/-- One change that a directive makes. -/
inductive Change where
  | mark (lines : LineRange)
  | showNumbers (on : Bool)
  | startAt (line : Nat)
  | title (label : String)
  | filename (label : String)
  | theme (id : String)
  | fold
  | unfold
  | exclude
  deriving DecidableEq

/-- What a directive does: the changes that it makes, and why it could not make them all. -/
structure Directive where
  changes : List Change := []
  skipped : Option SkipReason := none

/-- The label inside one pair of matching quotes, or all of the text if there is no such pair. -/
def dropQuotes (raw : List Char) : List Char :=
  let within (q : Char) : Option (List Char) := (Text.after? [q] raw).bind (Text.before? [q])
  ((within '"').or (within '\'')).getD raw

/-- Resolves a backslash before a quote, a backslash, an `n` or a `t`; any other one stays. -/
def unescapeLabel : List Char → List Char
  | '\\' :: '"' :: rest => '"' :: unescapeLabel rest
  | '\\' :: '\'' :: rest => '\'' :: unescapeLabel rest
  | '\\' :: '\\' :: rest => '\\' :: unescapeLabel rest
  | '\\' :: 'n' :: rest => '\n' :: unescapeLabel rest
  | '\\' :: 't' :: rest => '\t' :: unescapeLabel rest
  | '\\' :: c :: rest => '\\' :: c :: unescapeLabel rest
  | c :: rest => c :: unescapeLabel rest
  | [] => []

/-- The label that the value of a directive stands for. -/
def label? (raw : List Char) : Option String :=
  capLabel (unescapeLabel (dropQuotes raw))

namespace Directive

/-- A directive that makes one change from a label. -/
def ofLabel (raw : List Char) (change : String → Change) : Directive :=
  match label? raw with
  | some label => { changes := [change label] }
  | none => { skipped := some .emptyValue }

/-- The directive `hl:`. -/
def ofLineSpec (spec : List Char) : Directive :=
  let fragments := lineFragments spec
  let invalid := fragments.filter fun f => (LineRange.ofFragment? f).isNone
  { changes := (fragments.filterMap LineRange.ofFragment?).map .mark
    skipped :=
      if !invalid.isEmpty then some (.invalidLineSpec (invalid.map String.ofList))
      else if spec.all Text.isBlank then some .emptyValue
      else none }

/-- The directive `ln:`. -/
def ofLineNumber (value : List Char) : Directive :=
  if value = "true".toList then { changes := [.showNumbers true] }
  else if value = "false".toList then { changes := [.showNumbers false] }
  else match Text.integer? 63 value with
    | none => { skipped := some (.invalidLineNumber (String.ofList value)) }
    | some n =>
      if n < 1 then
        { changes := [.showNumbers true, .startAt 1], skipped := some (.lineNumberClamped n) }
      else if n.toNat < Text.bitBound 32 then { changes := [.showNumbers true, .startAt n.toNat] }
      else
        { changes := [.showNumbers true]
          skipped := some (.invalidLineNumber (String.ofList value)) }

/-- The directive `theme:`. -/
def ofTheme (id : List Char) : Directive :=
  if id.isEmpty then { skipped := some .emptyValue }
  else { changes := [.theme (String.ofList id)] }

/-- The directives that are one word without a value. -/
def flags : List (String × Change) :=
  [("ln", .showNumbers true), ("fold", .fold), ("unfold", .unfold), ("exclude", .exclude)]

/-- The directives that take a value. -/
def readers : List (String × (List Char → Directive)) :=
  [("hl:", ofLineSpec), ("ln:", ofLineNumber), ("title:", (ofLabel · .title)),
   ("file:", (ofLabel · .title)), ("filename:", (ofLabel · .filename)), ("theme:", ofTheme)]

/-- What a word after the language does. -/
def ofWord (word : List Char) : Directive :=
  match flags.lookup (String.ofList word) with
  | some change => { changes := [change] }
  | none =>
    (readers.findSome? fun (lead, read) => (Text.after? lead.toList word).map read).getD
      { skipped := some .unrecognized }

end Directive

/-- A configuration under construction; the marked lines are put in order at the end. -/
structure Draft where
  config : BlockConfig
  marks : List LineRange := []

/-- Makes one change. -/
def Draft.apply (d : Draft) : Change → Draft
  | .mark lines => { d with marks := d.marks ++ [lines] }
  | .showNumbers on => { d with config := { d.config with showLineNumbers := on } }
  | .startAt line => { d with config := { d.config with startLine := line } }
  | .title label => { d with config := { d.config with title := some label } }
  | .filename label => { d with config := { d.config with filename := some label } }
  | .theme id => { d with config := { d.config with theme := some id } }
  | .fold => { d with config := { d.config with fold := true } }
  | .unfold => { d with config := { d.config with unfold := true } }
  | .exclude => { d with config := { d.config with exclude := true } }

/-- The configuration that a draft amounts to. -/
def Draft.finish (d : Draft) : BlockConfig :=
  { d.config with highlightLines := LineRange.union d.marks }

/-- An info string that has been read. -/
structure Parsed where
  config : BlockConfig
  warnings : List Warning

/-- The language and the directives of an info string, read from its words. -/
def ofWords : List (List Char) → Parsed
  | [] => { config := { language := plainText }, warnings := [] }
  | language :: words =>
    let directives := words.map Directive.ofWord
    let draft : Draft := { config := { language := canonicalLanguage (String.ofList language) } }
    { config := ((directives.flatMap Directive.changes).foldl Draft.apply draft).finish
      warnings := (words.zip directives).filterMap fun (word, d) =>
        d.skipped.map fun reason => ⟨String.ofList word, reason⟩ }

/-- Reads an info string.  This never fails: what cannot be applied is listed as a warning. -/
def parse (info : String) : Parsed :=
  ofWords (wordChars info.toList)

end CodeFence.InfoString
