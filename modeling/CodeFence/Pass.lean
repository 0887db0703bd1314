import CodeFence.Block.Config
import CodeFence.Markup.Document
import CodeFence.Settings.Basic
import CodeFence.Syntax.Language
import CodeFence.Text.Numeral

/-!
# Passes

What is added to a rendered block after its lines are there: marks, numbers, a title bar and the
like.  Passes run in one fixed order, and each of them finds what it has done before and leaves it,
so that applying it again changes nothing.
-/

namespace CodeFence

open Markup

/-- One pass over a rendered block. -/
inductive Pass where
  /-- Marks the lines that the block asks for. -/
  | highlight
  | lineNumbers
  | title
  | languageLabel
  | copyButton
  | fold
  | wordWrap
  /-- Hides the block. -/
  | exclude
  deriving DecidableEq

/-- What a pass may read about its block. -/
structure PassContext where
  config : BlockConfig
  /-- The source as it was given. -/
  code : String
  /-- The canonical name of the language that was asked for. -/
  language : String

namespace Pass

/-- Every pass, in the order in which they run. -/
def all : List Pass :=
  [highlight, lineNumbers, title, languageLabel, copyButton, fold, wordWrap, exclude]

/-- The name of a pass. -/
def name : Pass → String
  | highlight => "highlight"
  | lineNumbers => "line-numbers"
  | title => "title"
  | languageLabel => "language-label"
  | copyButton => "copy-button"
  | fold => "fold"
  | wordWrap => "word-wrap"
  | exclude => "exclude"

/-- The pass with a name. -/
def ofName? (n : String) : Option Pass :=
  all.find? (·.name = n)

/-- The class of a line that is marked. -/
def highlightedClass : String := "highlighted-line"

/-- The class of the number in front of a line. -/
def numberClass : String := "line-number"

/-- Puts an element before the `code` element, or at the end if there is none. -/
def insertBeforeCode (e : Element) : List Node → List Node
  | [] => [e.toNode]
  | n :: rest =>
    if n.element?.any (·.tag = "code") then e.toNode :: n :: rest
    else n :: insertBeforeCode e rest

/-- Puts an element before the `code` element, unless one with that class is there already. -/
def addChrome (d : Document) (cls : String) (e : Element) : Document :=
  if (d.root.positionOfClass? cls).isSome then d
  else d.mapRoot fun root => { root with children := insertBeforeCode e root.children }

/-- Marks lines. -/
def highlightLines (config : BlockConfig) (d : Document) : Document :=
  d.mapLines fun i line =>
    if config.isHighlighted (i + 1) then line.withClass highlightedClass else line

/-- The number in front of a line. -/
def numberSpan (n : Nat) : Element :=
  let digits := Text.decimalDigits n
  { tag := "span"
    attrs := [("class", numberClass), ("data-line", String.ofList digits)]
    children := [.text (String.ofList (Text.padLeft 3 ' ' digits))] }

/-- Whether a line begins with its number. -/
def isNumbered (line : Element) : Bool :=
  (line.children.head?.bind Node.element?).any (·.hasClass numberClass)

/-- Numbers lines. -/
def numberLines (start : Nat) (d : Document) : Document :=
  let marked := d.mapRoot fun root =>
    let root := root.withClass "line-numbers"
    if start = 1 then root else root.withAttr "data-start-line" (toString start)
  marked.mapLines fun i line =>
    if isNumbered line then line
    else { line with children := (numberSpan (start + i)).toNode :: line.children }

/-- The title bar of a block. -/
def titleBar (config : BlockConfig) (text : String) : Element :=
  let bar : Element :=
    { tag := "div", attrs := [("class", "code-title")], children := [.text text] }
  match config.title, config.filename with
  | some _, some file => bar.withAttr "data-filename" file
  | _, _ => bar

/-- Adds a title bar. -/
def addTitle (config : BlockConfig) (d : Document) : Document :=
  match config.displayTitle with
  | none => d
  | some text =>
    addChrome (d.mapRoot fun root => (root.withClass "with-title").withAttr "data-title" text)
      "code-title" (titleBar config text)

/-- Adds the name of the language. -/
def addLanguage (language : String) (d : Document) : Document :=
  addChrome (d.mapRoot (·.withAttr "data-language" language)) "language-label"
    { tag := "span", attrs := [("class", "language-label")]
      children := [.text (Syntax.displayName language)] }

/-- Adds a button that copies the source. -/
def addCopyButton (code : String) (d : Document) : Document :=
  addChrome (d.mapRoot (·.withAttr "data-original-code" code)) "copy-button"
    { tag := "button"
      attrs := [("aria-label", "Copy code"), ("class", "copy-button"), ("type", "button")]
      children := [.text "Copy"] }

/-- Makes a block one that can be folded. -/
def makeFoldable (folded : Bool) (d : Document) : Document :=
  d.mapRoot fun root =>
    let root := root.withClass "foldable"
    (if folded then root.withClass "folded" else root).withAttr "data-fold-state"
      (if folded then "collapsed" else "expanded")

/-- Hides a block. -/
def hide (d : Document) : Document :=
  d.mapRoot fun root => (root.withClass "excluded").withAttr "hidden" "hidden"

/-- Applies one pass. -/
def apply (p : Pass) (c : PassContext) (d : Document) : Document :=
  match p with
  | highlight => highlightLines c.config d
  | lineNumbers => numberLines c.config.startLine d
  | title => addTitle c.config d
  | languageLabel => addLanguage c.language d
  | copyButton => addCopyButton c.code d
  | fold => makeFoldable c.config.fold d
  | wordWrap => d.mapRoot (·.withClass "word-wrap")
  | exclude => hide d

/-- Whether a block calls for a pass under some settings. -/
def isWanted (config : BlockConfig) (s : Settings) (p : Pass) : Bool :=
  (s.transformers || p = exclude) &&
    match p with
    | highlight => !config.highlightLines.isEmpty
    | lineNumbers => config.showLineNumbers || s.lineNumbers
    | title => config.displayTitle.isSome
    | languageLabel => s.languageLabel
    | copyButton => s.codeCopy
    | fold => s.folding && (config.fold || config.unfold)
    | wordWrap => s.wordWrap
    | exclude => config.exclude

/-- The passes that a block calls for, in order. -/
def select (config : BlockConfig) (s : Settings) : List Pass :=
  all.filter (isWanted config s)

/-- Applies passes one after the other. -/
def applyAll (passes : List Pass) (c : PassContext) (d : Document) : Document :=
  passes.foldl (fun d p => p.apply c d) d

end Pass

end CodeFence
