import CodeFence.Markup.Document
import CodeFence.Settings.Basic

/-!
# Engines

An engine turns source into rendered blocks.  It has a state of its own, in which languages and
themes are loaded before they are used.
-/

namespace CodeFence

open Markup

/-- Why an engine could not do what it was asked. -/
inductive EngineError where
  | themeNotFound (theme : String)
  | languageUnusable (language reason : String)
  | other (text : String)
  deriving DecidableEq

namespace EngineError

/-- The wording of an error. -/
def message : EngineError → String
  | themeNotFound theme => "Theme '" ++ theme ++ "' is not loaded"
  | languageUnusable language reason => "Language '" ++ language ++ "' is unusable: " ++ reason
  | other text => text

/-- Whether loading the theme may help. -/
def isThemeNotFound : EngineError → Bool
  | themeNotFound _ => true
  | _ => false

end EngineError

/-- What an engine can do, over the states that it goes through. -/
structure Engine (σ : Type) where
  /-- Whether a language can be loaded, by its canonical name. -/
  supports : σ → String → Bool
  loadLanguage : String → σ → Except EngineError Unit × σ
  loadTheme : String → σ → Except EngineError Unit × σ
  /-- Renders a source in a language and a theme that have been loaded. -/
  render : (code language theme : String) → σ → Except EngineError Document × σ
  applySettings : Settings → σ → σ

end CodeFence
