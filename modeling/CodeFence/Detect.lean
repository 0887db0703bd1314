import CodeFence.Text.Case
import CodeFence.Text.Split

/-!
# Guessing a language

The first line of a block that is not blank can give its language away: the interpreter that it
names behind `#!`, or the way in which some kinds of markup begin.
-/

namespace CodeFence.Detect

/-- Interpreters and the languages they run. -/
def interpreters : List (String × String) :=
  [("python", "python"), ("node", "javascript"), ("deno", "typescript"), ("bash", "bash"),
   ("zsh", "bash"), ("sh", "bash"), ("php", "php"), ("racket", "scheme")]

/-- The ways in which markup begins, in lower case. -/
def openings : List (String × String) :=
  [("<?php", "php"), ("<?xml", "xml"), ("<!doctype html", "html"), ("<html", "html")]

/-- The last part of a path. -/
def lastPart (path : List Char) : List Char :=
  (path.reverse.takeWhile (· ≠ '/')).reverse

/-- A program name without the version at its end. -/
def dropVersion (program : List Char) : List Char :=
  (program.reverse.dropWhile fun c => c.isDigit || c = '.').reverse

/-- The program that a command line runs, seen through `env` and the options of `env`. -/
def program? (command : List Char) : Option (List Char) :=
  match Text.words command with
  | [] => none
  | path :: arguments =>
    if lastPart path = "env".toList then arguments.find? fun w => w.head? != some '-'
    else some (lastPart path)

/-- The language that a line gives away. -/
def ofLine? (line : List Char) : Option String :=
  match Text.after? ['#', '!'] line with
  | some command => do
    let program ← program? command
    interpreters.lookup (String.ofList (dropVersion program))
  | none =>
    let lowered := Text.lowerAscii line
    (openings.find? fun (opening, _) => Text.startsWith opening.toList lowered).map Prod.snd

/-- The language of a source, if its first line gives it away. -/
def language? (code : String) : Option String := do
  let line ← (Text.lines code.toList).find? fun line => !line.all Text.isBlank
  ofLine? (Text.trim line)

end CodeFence.Detect
