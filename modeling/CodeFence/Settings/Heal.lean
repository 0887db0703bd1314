import CodeFence.Settings.Fields
import CodeFence.Theme.Lookup

/-!
# Healing settings

Settings can be made from any JSON value.  What is missing, of the wrong kind or useless is replaced
by its default, what is unknown is dropped, and the report names every key for which that happened.
-/

namespace CodeFence.Settings

/-- Whether settings give access to a theme. -/
def hasTheme (s : Settings) (around : Surroundings) (id : String) : Bool :=
  Theme.isKnown around.files id (s.themeDirectories around.environment)

/-- Whether a list names something, and names nothing blank. -/
def isUsefulList (names : List String) : Bool :=
  !names.isEmpty && names.all fun n => !Text.isBlankText n

/-- A check of one setting: its key, whether its value is useful, and how it gets its default. -/
structure Check where
  key : String
  isUseful : Settings → Bool
  reset : Settings → Settings

/-- The default settings. -/
def standard : Settings := {}

/-- Every check, in the order in which they are made.  Themes are looked for in the directories of
the settings as given. -/
def checks (around : Surroundings) (given : Settings) : List Check :=
  [⟨"languages", (isUsefulList ·.languages), fun s => { s with languages := standard.languages }⟩,
   ⟨"themes", (isUsefulList ·.themes), fun s => { s with themes := standard.themes }⟩,
   ⟨"maxCacheSize", (1 ≤ ·.maxCacheSize), fun s => { s with maxCacheSize := standard.maxCacheSize }⟩,
   ⟨"cacheExpirationDays", (1 ≤ ·.cacheExpirationDays),
    fun s => { s with cacheExpirationDays := standard.cacheExpirationDays }⟩,
   ⟨"fontSize", (!Text.isBlankText ·.fontSize), fun s => { s with fontSize := standard.fontSize }⟩,
   ⟨"fontFamily", (!Text.isBlankText ·.fontFamily),
    fun s => { s with fontFamily := standard.fontFamily }⟩,
   ⟨"fallbackLanguage", (!Text.isBlankText ·.fallbackLanguage),
    fun s => { s with fallbackLanguage := standard.fallbackLanguage }⟩,
   ⟨"defaultTheme", (given.hasTheme around ·.defaultTheme),
    fun s => { s with defaultTheme := standard.defaultTheme }⟩,
   ⟨"defaultDarkTheme", (given.hasTheme around ·.darkTheme),
    fun s => { s with darkTheme := standard.darkTheme }⟩,
   ⟨"defaultLightTheme", (given.hasTheme around ·.lightTheme),
    fun s => { s with lightTheme := standard.lightTheme }⟩]

/-- Makes one check of settings, behind the keys of those that failed before. -/
def Check.run (c : Check) : Settings × List String → Settings × List String
  | (s, failed) => if c.isUseful s then (s, failed) else (c.reset s, failed ++ [c.key])

/-- Resets what is useless, and names the keys for which that happened. -/
def repair (around : Surroundings) (given : Settings) : Settings × List String :=
  (checks around given).foldl (fun r c => c.run r) (given, [])

/-- The name that `customCSS` had in earlier exports. -/
def earlierCssKey : String := "customCss"

/-- The entries with the earlier name of `customCSS` replaced, if only that one is there, and
whether it was. -/
def renameCss (entries : List (String × Json)) : List (String × Json) × Bool :=
  match entries.lookup "customCSS", entries.lookup earlierCssKey with
  | none, some css =>
    (insertEntry "customCSS" css (entries.filter (·.1 ≠ earlierCssKey)), true)
  | _, _ => (entries, false)

/-- Whether a value has the shape of a default.  A number has to be a natural one of at most 32
bits, and a list may hold nothing but strings. -/
def sameShape : Json → Json → Bool
  | .bool _, .bool _ => true
  | .string _, .string _ => true
  | .number (.natural n), .number _ => n < Text.bitBound 32
  | .array items, .array _ => items.all fun v => (text? v).isSome
  | _, _ => false

/-- The value that is given for a default, if it has its shape. -/
def taken? (given : List (String × Json)) (default : String × Json) : Option Json :=
  (given.lookup default.1).filter (sameShape · default.2)

/-- Every setting, with the value that is given for it or else its default. -/
def merge (given : List (String × Json)) : List (String × Json) :=
  standard.entries.map fun d => (d.1, (taken? given d).getD d.2)

/-- The keys for which no value is taken. -/
def missing (given : List (String × Json)) : List String :=
  (standard.entries.filter fun d => (taken? given d).isNone).map Prod.fst

/-- The keys that are no settings. -/
def unknown (given : List (String × Json)) : List String :=
  (given.map Prod.fst).filter fun key => !fields.any (·.key = key)

/-- The keys of which nothing was taken as it is: the earlier name of `customCSS`, settings without
a value of their kind, and what is no setting. -/
def rejected (given : List (String × Json)) : List String :=
  (if (renameCss given).2 then [earlierCssKey] else []) ++
    missing (renameCss given).1 ++ unknown (renameCss given).1

/-- Makes settings from the values that are given for them, and names the keys for which a default
or nothing was taken. -/
def healEntries (around : Surroundings) (given : List (String × Json)) : Settings × List String :=
  (ofEntries? (merge (renameCss given).1)).elim (standard, ["*"]) fun adopted =>
    let (healed, reset) := repair around adopted
    (healed, rejected given ++ reset.filter fun key => !(rejected given).contains key)

/-- Makes settings from any JSON value.  Nothing can be taken from what is not an object. -/
def heal (around : Surroundings) : Json → Settings × List String
  | .object given => healEntries around given
  | _ => (standard, ["*"])

/-- The keys without which an export is not accepted. -/
def requiredKeys : List String :=
  ["defaultTheme", "defaultDarkTheme", "defaultLightTheme", "enableLineNumbers",
   "enableInlineHighlight", "cacheEnabled"]

/-- Why an export is not accepted. -/
inductive ImportError where
  | notJson
  | notAnObject
  | missingFields (keys : List String)
  deriving DecidableEq

/-- The wording of an error. -/
def ImportError.message : ImportError → String
  | notJson => "Invalid settings JSON"
  | notAnObject => "Settings must be a JSON object"
  | missingFields keys => "Settings are missing required fields: " ++ ", ".intercalate keys

/-- Accepts an export, healing what is not required of it. -/
def importText (around : Surroundings) (text : String) :
    Except ImportError (Settings × List String) :=
  match Json.parse? text with
  | none => .error .notJson
  | some (.object entries) =>
    let missing := requiredKeys.filter fun key => (entries.lookup key).isNone
    if missing.isEmpty then .ok (heal around (.object entries)) else .error (.missingFields missing)
  | some _ => .error .notAnObject

end CodeFence.Settings
