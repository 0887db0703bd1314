import CodeFence.Json.Writer
import CodeFence.Settings.Basic

/-!
# The fields of settings

Each setting has a key in JSON, and a kind of value that it takes.  All that is done key by key,
such as writing, reading and healing, goes through the table of these fields.
-/

namespace CodeFence.Settings

/-- One setting: its key, its value as JSON, and how a JSON value is put in its place.  A value of
the wrong kind cannot be put there. -/
structure Field where
  key : String
  get : Settings → Json
  set? : Settings → Json → Option Settings

/-- A setting that is a text. -/
def Field.text (key : String) (get : Settings → String) (set : Settings → String → Settings) :
    Field where
  key := key
  get s := .string (get s)
  set? s
    | .string v => some (set s v)
    | _ => none

/-- A setting that is on or off. -/
def Field.flag (key : String) (get : Settings → Bool) (set : Settings → Bool → Settings) :
    Field where
  key := key
  get s := .bool (get s)
  set? s
    | .bool v => some (set s v)
    | _ => none

/-- A setting that is a natural number of at most 32 bits. -/
def Field.count (key : String) (get : Settings → Nat) (set : Settings → Nat → Settings) :
    Field where
  key := key
  get s := Json.ofNat (get s)
  set? s
    | .number (.natural v) => if v < Text.bitBound 32 then some (set s v) else none
    | _ => none

/-- The text that a JSON value is. -/
def text? : Json → Option String
  | .string v => some v
  | _ => none

/-- A setting that is a list of texts. -/
def Field.texts (key : String) (get : Settings → List String)
    (set : Settings → List String → Settings) : Field where
  key := key
  get s := Json.ofStrings (get s)
  set? s
    | .array items => (items.mapM text?).map (set s)
    | _ => none

/-- Every setting, in the order in which settings are written. -/
def fields : List Field :=
  [.text "defaultTheme" defaultTheme fun s v => { s with defaultTheme := v },
   .text "defaultDarkTheme" darkTheme fun s v => { s with darkTheme := v },
   .text "defaultLightTheme" lightTheme fun s v => { s with lightTheme := v },
   .flag "autoThemeSwitch" autoThemeSwitch fun s v => { s with autoThemeSwitch := v },
   .text "customThemePath" customThemePath fun s v => { s with customThemePath := v },
   .texts "themes" themes fun s v => { s with themes := v },
   .flag "enableLineNumbers" lineNumbers fun s v => { s with lineNumbers := v },
   .flag "enableInlineHighlight" inlineHighlight fun s v => { s with inlineHighlight := v },
   .flag "enableFolding" folding fun s v => { s with folding := v },
   .flag "enableCodeCopy" codeCopy fun s v => { s with codeCopy := v },
   .flag "enableLanguageLabel" languageLabel fun s v => { s with languageLabel := v },
   .flag "enableWordWrap" wordWrap fun s v => { s with wordWrap := v },
   .texts "languages" languages fun s v => { s with languages := v },
   .flag "autoDetectLanguage" autoDetectLanguage fun s v => { s with autoDetectLanguage := v },
   .text "fallbackLanguage" fallbackLanguage fun s v => { s with fallbackLanguage := v },
   .flag "cacheEnabled" cacheEnabled fun s v => { s with cacheEnabled := v },
   .count "maxCacheSize" maxCacheSize fun s v => { s with maxCacheSize := v },
   .count "cacheExpirationDays" cacheExpirationDays fun s v => { s with cacheExpirationDays := v },
   .flag "lazyLoading" lazyLoading fun s v => { s with lazyLoading := v },
   .text "fontSize" fontSize fun s v => { s with fontSize := v },
   .text "fontFamily" fontFamily fun s v => { s with fontFamily := v },
   .text "lineHeight" lineHeight fun s v => { s with lineHeight := v },
   .text "borderRadius" borderRadius fun s v => { s with borderRadius := v },
   .flag "showBackground" showBackground fun s v => { s with showBackground := v },
   .text "padding" padding fun s v => { s with padding := v },
   .flag "enableTransformers" transformers fun s v => { s with transformers := v },
   .text "customCSS" customCss fun s v => { s with customCss := v },
   .flag "debugMode" debugMode fun s v => { s with debugMode := v }]

/-- Settings as a JSON value, in the order in which they are written. -/
def toJson (s : Settings) : Json :=
  .object (fields.map fun f => (f.key, f.get s))

/-- Settings as entries, in the order of the keys. -/
def entries (s : Settings) : List (String × Json) :=
  inOrder (fields.map fun f => (f.key, f.get s))

/-- Settings as they are exported and kept in their file. -/
def render (s : Settings) : String :=
  s.toJson.render .indented

/-- The settings with those entries put in place that have the key of a setting. -/
def overlay? (s : Settings) (entries : List (String × Json)) : Option Settings :=
  fields.foldlM (fun s f =>
    match entries.lookup f.key with
    | some v => f.set? s v
    | none => some s) s

/-- The settings that entries spell out.  Every setting needs a value of its kind; entries with
other keys do not matter. -/
def ofEntries? (entries : List (String × Json)) : Option Settings :=
  fields.foldlM (fun s f => (entries.lookup f.key).bind (f.set? s)) {}

end CodeFence.Settings
