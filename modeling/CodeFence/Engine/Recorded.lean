import CodeFence.Engine.Basic

/-!
# Recorded engines

An engine that keeps what it is asked.  It answers as the engine itself does.
-/

namespace CodeFence

open Markup

/-- A call that an engine has received. -/
inductive EngineCall where
  | language (name : String)
  | theme (id : String)
  | render (language theme : String)
  | settings
  deriving DecidableEq

/-- One call that an engine received: its state before, the call, and how it
failed, unless it succeeded. -/
structure Exchange (σ : Type) where
  before : σ
  call : EngineCall
  failure : Option EngineError

/-- How a call failed, unless it succeeded. -/
def failure? {α : Type} : Except EngineError α → Option EngineError
  | .ok _ => none
  | .error e => some e

/-- An engine that also keeps its exchanges, first to last. -/
def Engine.recorded {σ : Type} (e : Engine σ) : Engine (σ × List (Exchange σ)) where
  supports s l := e.supports s.1 l
  loadLanguage l s :=
    let (r, t) := e.loadLanguage l s.1
    (r, t, s.2 ++ [⟨s.1, .language l, failure? r⟩])
  loadTheme id s :=
    let (r, t) := e.loadTheme id s.1
    (r, t, s.2 ++ [⟨s.1, .theme id, failure? r⟩])
  render code l id s :=
    let (r, t) := e.render code l id s.1
    (r, t, s.2 ++ [⟨s.1, .render l id, failure? r⟩])
  applySettings settings s :=
    (e.applySettings settings s.1, s.2 ++ [⟨s.1, .settings, none⟩])

variable {σ : Type} {e : Engine σ}

theorem recorded_loadLanguage (l : String) (s : σ × List (Exchange σ)) :
    e.recorded.loadLanguage l s =
      ((e.loadLanguage l s.1).1, (e.loadLanguage l s.1).2,
        s.2 ++ [⟨s.1, .language l, failure? (e.loadLanguage l s.1).1⟩]) := rfl

theorem recorded_loadTheme (id : String) (s : σ × List (Exchange σ)) :
    e.recorded.loadTheme id s =
      ((e.loadTheme id s.1).1, (e.loadTheme id s.1).2,
        s.2 ++ [⟨s.1, .theme id, failure? (e.loadTheme id s.1).1⟩]) := rfl

theorem recorded_render (code l id : String) (s : σ × List (Exchange σ)) :
    e.recorded.render code l id s =
      ((e.render code l id s.1).1, (e.render code l id s.1).2,
        s.2 ++ [⟨s.1, .render l id, failure? (e.render code l id s.1).1⟩]) := rfl

end CodeFence
