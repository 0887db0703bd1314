import CodeFence.Block.InfoString
import CodeFence.Block.Inline
import CodeFence.Detect
import CodeFence.Markdown.Blocks
import CodeFence.Markdown.Fold
import CodeFence.Markdown.Writer
import CodeFence.Page.Refresh
import CodeFence.Stylesheet

/-!
# Pages

A Markdown document becomes markup in which every block of code is a wrapper around its rendering,
and every piece of code inside a line that names a language is rendered in place.  This is done
while the events of the document go by.  A page adds a head with the style sheet.
-/

namespace CodeFence

/-- The configuration of a block of code: that of its info string, and if there is none, the
language that the code itself suggests. -/
def BlockConfig.ofCode (s : Settings) (info code : String) : BlockConfig :=
  let config := (InfoString.parse info).config.repaired
  if s.autoDetectLanguage && Text.isBlankText info then
    match Detect.language? code with
    | some language => { config with language }
    | none => config
  else config

/-- The source of a block of code: its text without the last line end. -/
def sourceOf (text : String) : String :=
  String.ofList ((Text.before? ['\n'] text.toList).getD text.toList)

namespace Pipeline

open Markdown

variable {σ : Type}

/-- The markup for a block of code. -/
def codeBlockHtml (now : Nat) (info text : String) : StateM (Pipeline σ) String := do
  let code := sourceOf text
  let config := BlockConfig.ofCode (← get).settings info code
  return (← renderWrapped code config now) ++ "\n"

/-- The markup for a piece of code inside a line, if it names a language that can be rendered. -/
def codeSpanHtml? (now : Nat) (text : String) : StateM (Pipeline σ) (Option String) := do
  let p ← get
  match if p.settings.inlineHighlight then InlineCode.parse? text else none with
  | none => return none
  | some inline =>
    match p.resolveLanguage inline.language with
    | none => return none
    | some _ =>
      let html ← renderInline inline.code inline.language now
      return some ("<code class=\"fencelight-inline\" data-language=\"" ++
        Markup.escape inline.language ++ "\">" ++ html ++ "</code>")

/-- Renders a document that is delivered as events. -/
def renderEvents (events : List Markdown.Event) (now : Nat) : StateM (Pipeline σ) String :=
  return eventsToHtml (← Fold.run (codeBlockHtml now) (codeSpanHtml? now) {} events).done

/-- Renders a Markdown document. -/
def renderMarkdown (text : String) (now : Nat) : StateM (Pipeline σ) String :=
  renderEvents (Block.allEvents (parse text)) now

/-- Renders a Markdown document as a page of its own. -/
def renderPage (text title : String) (now : Nat) : StateM (Pipeline σ) String := do
  let body ← renderMarkdown text now
  return String.intercalate "\n"
    ["<!DOCTYPE html>",
     "<html>",
     "<head>",
     "    <meta charset=\"utf-8\">",
     "    <meta name=\"viewport\" content=\"width=device-width, initial-scale=1\">",
     "    <title>" ++ Markup.escape title ++ "</title>",
     "    <style>" ++ styleSheet (← get).settings ++ "</style>",
     "</head>",
     "<body>",
     body,
     "</body>",
     "</html>"]

end Pipeline

end CodeFence
