import CodeFence.Files.Locations

/-!
# Settings

What holds for every block: themes, features, languages, the cache, and how blocks look.
-/

namespace CodeFence

/-- The settings of the program. -/
structure Settings where
  defaultTheme : String := "dark-plus"
  darkTheme : String := "dark-plus"
  lightTheme : String := "light-plus"
  /-- Follow the display mode with the dark and the light theme. -/
  autoThemeSwitch : Bool := true
  /-- One more directory of themes. -/
  customThemePath : String := ""
  /-- Themes that are loaded ahead. -/
  themes : List String := ["dark-plus", "light-plus", "github-dark", "github-light"]
  lineNumbers : Bool := false
  inlineHighlight : Bool := true
  folding : Bool := true
  codeCopy : Bool := true
  languageLabel : Bool := true
  wordWrap : Bool := false
  /-- Languages that are loaded ahead. -/
  languages : List String :=
    ["javascript", "typescript", "python", "cpp", "java", "html", "css"]
  /-- Guess the language of a block without an info string. -/
  autoDetectLanguage : Bool := true
  fallbackLanguage : String := "text"
  cacheEnabled : Bool := true
  maxCacheSize : Nat := 100
  cacheExpirationDays : Nat := 7
  /-- Load languages only when they are needed. -/
  lazyLoading : Bool := false
  fontSize : String := "14px"
  fontFamily : String := "Consolas, 'Courier New', monospace"
  lineHeight : String := "1.4"
  borderRadius : String := "4px"
  showBackground : Bool := true
  padding : String := "16px"
  transformers : Bool := true
  customCss : String := ""
  debugMode : Bool := false
  deriving DecidableEq

namespace Settings

/-- How many seconds a cached rendering lives. -/
def cacheSeconds (s : Settings) : Nat :=
  max s.cacheExpirationDays 1 * 24 * 60 * 60

/-- The directories in which themes are looked for. -/
def themeDirectories (s : Settings) (env : Environment) : List String :=
  env.themeDirectories s.customThemePath

end Settings

end CodeFence
