import CodeFence.Engine.Basic

/-!
# Scripted engines

An engine without grammars, whose answers are laid down in a script.  It shows what a caller makes
of an engine that fails in one way or another.
-/

namespace CodeFence

open Markup

/-- How a scripted engine answers. -/
structure Script where
  supported : List String := ["rust", "python", "javascript", "text"]
  /-- The themes that can be loaded. -/
  themes : List String := ["dark-plus", "light-plus", "monokai"]
  /-- Languages in which nothing can be rendered. -/
  unusable : List String := []
  /-- Languages that cannot be loaded. -/
  loadFails : List String := []
  /-- Themes whose files cannot be read. -/
  brokenThemes : List String := []
  /-- Whether every rendering fails. -/
  broken : Bool := false
  /-- Whether loaded themes are forgotten at once. -/
  forgetful : Bool := false

namespace Script

/-- The block that a scripted engine renders. -/
def document (code language theme : String) : Document :=
  Document.ofLines
    { tag := "pre"
      attrs := [("class", "mock"), ("data-engine-language", language), ("data-theme", theme)] }
    ((displayLines code.toList).map fun line =>
      { tag := "span", attrs := [("class", lineClass)]
        children := [.text (String.ofList line)] })

/-- The engine that follows a script.  Its state is the list of loaded themes. -/
def engine (s : Script) : Engine (List String) where
  supports _ l := s.supported.contains l
  loadLanguage l loaded :=
    (if s.loadFails.contains l then .error (.languageUnusable l "load failed") else .ok (), loaded)
  loadTheme id loaded :=
    if s.brokenThemes.contains id then (.error (.other "broken theme"), loaded)
    else if !s.themes.contains id then (.error (.themeNotFound id), loaded)
    else if s.forgetful || loaded.contains id then (.ok (), loaded)
    else (.ok (), id :: loaded)
  render code l id loaded :=
    let result :=
      if !loaded.contains id then .error (.themeNotFound id)
      else if s.broken then .error (.other "broken")
      else if s.unusable.contains l then .error (.languageUnusable l "unusable")
      else .ok (document code l id)
    (result, loaded)
  applySettings _ loaded := loaded

end Script

end CodeFence
