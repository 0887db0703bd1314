import CodeFence.Cache
import CodeFence.DisplayMode
import CodeFence.Engine.Basic
import CodeFence.Pass

/-!
# The pipeline

From a source, a language and a configuration to a rendered block: choose the theme, find an engine
language, load what is missing, render, and let the passes run.  A theme that turns out not to be
loaded is loaded and tried once more; a language that fails gives way to the fallback language, and
that one to plain text, so a block is always rendered somehow.  What the engine rendered is cached.
-/

namespace CodeFence

open Markup

/-- Names for engine languages that are tried when the engine does not know the canonical one. -/
def engineAliases : List (String × String) :=
  [("shell", "bash"), ("console", "bash"), ("racket", "scheme"), ("rkt", "scheme"),
   ("plaintext", "text"), ("plain", "text"), ("txt", "text"), ("c++", "cpp"), ("golang", "go"),
   ("htm", "html"), ("svg", "xml"), ("jsonc", "json"), ("rs", "rust"), ("h", "c"),
   ("hpp", "cpp")]

/-- How a rendering came about. -/
inductive Outcome where
  | rendered
  /-- Rendered in the fallback language. -/
  | fallback
  /-- Not rendered by the engine at all. -/
  | plain
  deriving DecidableEq

/-- A pipeline over an engine with states `σ`. -/
structure Pipeline (σ : Type) where
  engine : Engine σ
  state : σ
  settings : Settings
  cache : Cache
  languages : List String := []
  themes : List String := []
  mode : Option DisplayMode := none

namespace Pipeline

variable {σ : Type}

/-- The cache that settings ask for, still empty. -/
def freshCache (s : Settings) : Cache :=
  Cache.empty s.maxCacheSize (s.cacheSeconds * 1000)

/-- A pipeline that has done nothing yet. -/
def start (engine : Engine σ) (state : σ) (s : Settings) : Pipeline σ :=
  { engine, state, settings := s, cache := freshCache s }

/-- Adds a name to those that are there. -/
def addName (name : String) (names : List String) : List String :=
  if names.contains name then names else name :: names

/-- Makes an engine call and keeps the state that it leaves. -/
def call {α : Type} (run : Engine σ → σ → Except EngineError α × σ) :
    ExceptT EngineError (StateM (Pipeline σ)) α := do
  let p ← get
  let (result, state) := run p.engine p.state
  set { p with state }
  match result with
  | .ok a => return a
  | .error e => throw e

/-- Loads a language unless that has been done. -/
def ensureLanguage (language : String) : ExceptT EngineError (StateM (Pipeline σ)) Unit := do
  if !(← get).languages.contains language then
    call fun e => e.loadLanguage language
    modify fun p => { p with languages := addName language p.languages }

/-- Loads a theme unless that has been done. -/
def ensureTheme (theme : String) : ExceptT EngineError (StateM (Pipeline σ)) Unit := do
  if !(← get).themes.contains theme then
    call fun e => e.loadTheme theme
    modify fun p => { p with themes := addName theme p.themes }

/-- The engine language for a language name, if there is one. -/
def resolveLanguage (p : Pipeline σ) (language : String) : Option String :=
  let canonical := canonicalLanguage language
  if p.engine.supports p.state canonical then some canonical
  else (engineAliases.lookup canonical).filter (p.engine.supports p.state)

/-- The theme for a block: the one asked for, the block's own, the one for the display mode, the
default. -/
def resolveTheme (p : Pipeline σ) (config : BlockConfig) (asked : Option String) : String :=
  match asked.filter fun t => !Text.isBlankText t, config.theme with
  | some theme, _ => theme
  | none, some theme => theme
  | none, none =>
    match p.settings.autoThemeSwitch, p.mode with
    | true, some .dark => p.settings.darkTheme
    | true, some .light => p.settings.lightTheme
    | _, _ => p.settings.defaultTheme

/-- Renders in a language that has been loaded.  A theme that the engine does not have is loaded and
tried again. -/
def renderLoaded (code language theme : String) :
    ExceptT EngineError (StateM (Pipeline σ)) Document := do
  try call fun e => e.render code language theme
  catch e =>
    if e.isThemeNotFound then
      modify fun p => { p with themes := p.themes.filter (· ≠ theme) }
      ensureTheme theme
      call fun e => e.render code language theme
    else throw e

/-- Renders in one language, which is loaded first. -/
def attempt (code language theme : String) :
    ExceptT EngineError (StateM (Pipeline σ)) Document := do
  match (← get).resolveLanguage language with
  | none => throw (.languageUnusable language "not supported")
  | some resolved =>
    ensureLanguage resolved
    renderLoaded code resolved theme

/-- Renders in the language asked for, in the fallback language, or without an engine. -/
def renderSomehow (code language theme : String) : StateM (Pipeline σ) (Document × Outcome) := do
  match ← (attempt code language theme).run with
  | .ok d => return (d, .rendered)
  | .error _ =>
    match ← (attempt code (← get).settings.fallbackLanguage theme).run with
    | .ok d => return (d, .fallback)
    | .error _ => return (Document.plain code, .plain)

/-- Looks in the cache, if it is in use. -/
def lookUp (key : CacheKey) (code : String) (now : Nat) : StateM (Pipeline σ) (Option Document) :=
  modifyGet fun p =>
    if p.settings.cacheEnabled then
      let (found, cache) := p.cache.get key code now
      (found, { p with cache })
    else (none, p)

/-- Keeps a rendering, if the cache is in use. -/
def keep (key : CacheKey) (code : String) (d : Document) (outcome : Outcome) (now : Nat) :
    StateM (Pipeline σ) Unit :=
  modify fun p =>
    if p.settings.cacheEnabled then
      { p with cache := p.cache.put key (.of d code (outcome != .rendered) now) now }
    else p

/-- What the engine makes of a source, from the cache if it is there. -/
def highlighted (code language theme : String) (now : Nat) :
    StateM (Pipeline σ) (Document × Outcome) := do
  let key := CacheKey.of code language theme
  match ← lookUp key code now with
  | some d => return (d, if d.root.hasClass "plain" then .plain else .rendered)
  | none =>
    let (d, outcome) ← renderSomehow code language theme
    keep key code d outcome now
    return (d, outcome)

/-- Renders a block. -/
def render (code language : String) (config : BlockConfig) (asked : Option String) (now : Nat) :
    StateM (Pipeline σ) Document := do
  let theme := (← get).resolveTheme config asked
  let (d, _) ← highlighted code language theme now
  let passes := Pass.select config (← get).settings
  return Pass.applyAll passes ⟨config, code, canonicalLanguage language⟩ d

/-- Renders a block to its written form. -/
def renderHtml (code language : String) (config : BlockConfig) (asked : Option String)
    (now : Nat) : StateM (Pipeline σ) String :=
  return (← render code language config asked now).toHtml

/-- Renders a piece of code inside a line, without passes.  Code that no engine rendered is escaped
and nothing more. -/
def renderInline (code language : String) (now : Nat) : StateM (Pipeline σ) String := do
  let theme := (← get).resolveTheme { language } none
  let (d, outcome) ← highlighted code language theme now
  return if outcome = .plain then escape code else d.innerCodeHtml

/-- The themes that are loaded ahead: those of the list, and the default ones. -/
def preloadThemes (s : Settings) : List String :=
  [s.defaultTheme, s.darkTheme, s.lightTheme].foldl
    (fun themes theme => if themes.contains theme then themes else themes ++ [theme]) s.themes

/-- Loads a theme.  It does not matter if that fails. -/
def preloadTheme (theme : String) : StateM (Pipeline σ) Unit := do
  let _ ← (ensureTheme theme).run

/-- Loads a configured language, if the engine has one for it. -/
def preloadLanguage (language : String) : StateM (Pipeline σ) Unit := do
  match (← get).resolveLanguage language with
  | none => return
  | some resolved =>
    let _ ← (ensureLanguage resolved).run

/-- Loads the themes and, unless loading is lazy, the languages of the settings.  What fails is
passed over. -/
def preload : StateM (Pipeline σ) Unit := do
  let s := (← get).settings
  (preloadThemes s).forM preloadTheme
  unless s.lazyLoading do
    s.languages.forM preloadLanguage

/-- Takes new settings, and drops what was cached or loaded under the old ones where it may no
longer hold. -/
def updateSettings (p : Pipeline σ) (s : Settings) : Pipeline σ :=
  let moved := s.customThemePath ≠ p.settings.customThemePath
  let stale :=
    !s.cacheEnabled || s.cacheExpirationDays ≠ p.settings.cacheExpirationDays || moved
  { p with
    cache := if stale then freshCache s else p.cache.setCapacity s.maxCacheSize
    themes := if moved then [] else p.themes
    state := p.engine.applySettings s p.state
    settings := s }

/-- Drops every cached rendering. -/
def clearCache (p : Pipeline σ) : Pipeline σ :=
  { p with cache := p.cache.clear }

end Pipeline

end CodeFence
