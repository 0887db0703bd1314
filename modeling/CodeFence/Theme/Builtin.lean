import CodeFence.Theme.Source

/-!
# Built-in themes

The themes that are there without any file.
-/

namespace CodeFence.Theme

/-- The built-in theme Dark+. -/
def darkPlus : Source where
  name := "Dark+"
  kind := .dark
  background := "#1E1E1E"
  foreground := "#D4D4D4"
  lineNumber := some "#858585"
  highlightedLine := some "#FFFFFF1A"
  titleBackground := some "#252526"
  scopes :=
    [("attribute", "#9CDCFE"), ("boolean", "#569CD6"), ("comment", "#6A9955"),
     ("constant", "#4FC1FF"), ("constant.builtin", "#569CD6"), ("constructor", "#4EC9B0"),
     ("escape", "#D7BA7D"), ("function", "#DCDCAA"), ("function.builtin", "#DCDCAA"),
     ("keyword", "#C586C0"), ("keyword.function", "#569CD6"), ("keyword.operator", "#569CD6"),
     ("label", "#C8C8C8"), ("number", "#B5CEA8"), ("operator", "#D4D4D4"),
     ("property", "#9CDCFE"), ("punctuation", "#D4D4D4"), ("string", "#CE9178"),
     ("string.special", "#D16969"), ("tag", "#569CD6"), ("tag.attribute", "#9CDCFE"),
     ("type", "#4EC9B0"), ("type.builtin", "#569CD6"), ("variable", "#9CDCFE"),
     ("variable.builtin", "#569CD6")]

/-- The built-in theme Light+. -/
def lightPlus : Source where
  name := "Light+"
  kind := .light
  background := "#FFFFFF"
  foreground := "#000000"
  lineNumber := some "#237893"
  highlightedLine := some "#0000001A"
  titleBackground := some "#F3F3F3"
  scopes :=
    [("attribute", "#E50000"), ("boolean", "#0000FF"), ("comment", "#008000"),
     ("constant", "#0070C1"), ("constant.builtin", "#0000FF"), ("constructor", "#267F99"),
     ("escape", "#EE0000"), ("function", "#795E26"), ("function.builtin", "#795E26"),
     ("keyword", "#AF00DB"), ("keyword.function", "#0000FF"), ("keyword.operator", "#0000FF"),
     ("label", "#000000"), ("number", "#098658"), ("operator", "#000000"),
     ("property", "#001080"), ("punctuation", "#000000"), ("string", "#A31515"),
     ("string.special", "#811F3F"), ("tag", "#800000"), ("tag.attribute", "#E50000"),
     ("type", "#267F99"), ("type.builtin", "#0000FF"), ("variable", "#001080"),
     ("variable.builtin", "#0000FF")]

/-- The built-in theme GitHub Dark. -/
def githubDark : Source where
  name := "GitHub Dark"
  kind := .dark
  background := "#0D1117"
  foreground := "#E6EDF3"
  lineNumber := some "#6E7681"
  highlightedLine := some "#388BFD26"
  titleBackground := some "#161B22"
  scopes :=
    [("attribute", "#79C0FF"), ("boolean", "#79C0FF"), ("comment", "#8B949E"),
     ("constant", "#79C0FF"), ("constructor", "#FFA657"), ("escape", "#79C0FF"),
     ("function", "#D2A8FF"), ("keyword", "#FF7B72"), ("label", "#FFA657"), ("number", "#79C0FF"),
     ("operator", "#FF7B72"), ("property", "#79C0FF"), ("punctuation", "#E6EDF3"),
     ("string", "#A5D6FF"), ("string.special", "#7EE787"), ("tag", "#7EE787"),
     ("tag.attribute", "#79C0FF"), ("type", "#FFA657"), ("variable", "#E6EDF3"),
     ("variable.builtin", "#79C0FF")]

/-- The built-in theme GitHub Light. -/
def githubLight : Source where
  name := "GitHub Light"
  kind := .light
  background := "#FFFFFF"
  foreground := "#1F2328"
  lineNumber := some "#8C959F"
  highlightedLine := some "#FFF8C5"
  titleBackground := some "#F6F8FA"
  scopes :=
    [("attribute", "#0550AE"), ("boolean", "#0550AE"), ("comment", "#6E7781"),
     ("constant", "#0550AE"), ("constructor", "#953800"), ("escape", "#0550AE"),
     ("function", "#8250DF"), ("keyword", "#CF222E"), ("label", "#953800"), ("number", "#0550AE"),
     ("operator", "#CF222E"), ("property", "#0550AE"), ("punctuation", "#1F2328"),
     ("string", "#0A3069"), ("string.special", "#116329"), ("tag", "#116329"),
     ("tag.attribute", "#0550AE"), ("type", "#953800"), ("variable", "#1F2328"),
     ("variable.builtin", "#0550AE")]

/-- The built-in theme Monokai. -/
def monokai : Source where
  name := "Monokai"
  kind := .dark
  background := "#272822"
  foreground := "#F8F8F2"
  lineNumber := some "#90908A"
  highlightedLine := some "#3E3D32"
  titleBackground := some "#1E1F1C"
  scopes :=
    [("attribute", "#A6E22E"), ("boolean", "#AE81FF"), ("comment", "#88846F"),
     ("constant", "#AE81FF"), ("constructor", "#66D9EF"), ("escape", "#AE81FF"),
     ("function", "#A6E22E"), ("keyword", "#F92672"), ("keyword.function", "#66D9EF"),
     ("label", "#E6DB74"), ("number", "#AE81FF"), ("operator", "#F92672"),
     ("property", "#F8F8F2"), ("punctuation", "#F8F8F2"), ("string", "#E6DB74"),
     ("tag", "#F92672"), ("tag.attribute", "#A6E22E"), ("type", "#66D9EF"),
     ("variable", "#F8F8F2"), ("variable.builtin", "#FD971F"), ("variable.parameter", "#FD971F")]

/-- The built-in theme Solarized Light. -/
def solarizedLight : Source where
  name := "Solarized Light"
  kind := .light
  background := "#FDF6E3"
  foreground := "#657B83"
  lineNumber := some "#93A1A1"
  highlightedLine := some "#EEE8D5"
  titleBackground := some "#EEE8D5"
  scopes :=
    [("attribute", "#93A1A1"), ("boolean", "#B58900"), ("comment", "#93A1A1"),
     ("constant", "#CB4B16"), ("constructor", "#CB4B16"), ("escape", "#CB4B16"),
     ("function", "#268BD2"), ("keyword", "#859900"), ("label", "#D33682"), ("number", "#D33682"),
     ("operator", "#859900"), ("property", "#268BD2"), ("punctuation", "#657B83"),
     ("string", "#2AA198"), ("tag", "#268BD2"), ("tag.attribute", "#93A1A1"), ("type", "#B58900"),
     ("variable", "#268BD2"), ("variable.builtin", "#B58900")]

/-- Every built-in theme under its id, in the order in which they are listed. -/
def builtins : List (String × Source) :=
  [("dark-plus", darkPlus),
   ("light-plus", lightPlus),
   ("github-dark", githubDark),
   ("github-light", githubLight),
   ("monokai", monokai),
   ("solarized-light", solarizedLight)]

/-- The built-in theme with an id. -/
def builtin? (id : String) : Option Source :=
  builtins.lookup id

end CodeFence.Theme
