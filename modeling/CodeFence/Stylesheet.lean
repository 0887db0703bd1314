import CodeFence.Settings.Basic

/-!
# Style sheet

The rules for rendered blocks.  Values from the settings are put in as they are, and the user's own
rules come last.
-/

namespace CodeFence

/-- A rule: its selector and its declarations, one a line. -/
def cssRule (selector : String) (declarations : List String) : String :=
  "\n" ++ selector ++ " \x7b\n" ++
    String.join (declarations.map fun d => "    " ++ d ++ ";\n") ++ "\x7d\n"

/-- The rules for rendered blocks under some settings. -/
def styleRules (s : Settings) : List String :=
  [cssRule "pre.fencelight"
    (["position: relative", "font-family: " ++ s.fontFamily, "font-size: " ++ s.fontSize,
      "line-height: " ++ s.lineHeight, "border-radius: " ++ s.borderRadius,
      "padding: " ++ s.padding, "overflow-x: auto"] ++
      if s.showBackground then [] else ["background-color: transparent !important"]),
   cssRule "pre.fencelight code"
    ["font-family: inherit", "white-space: " ++ if s.wordWrap then "pre-wrap" else "pre"],
   cssRule "pre.fencelight .line" ["display: inline-block", "min-width: 100%"],
   cssRule "pre.fencelight .highlighted-line"
    ["background-color: var(--fencelight-highlighted-line)"],
   cssRule "pre.fencelight .line-number"
    ["display: inline-block", "margin-right: 1em", "color: var(--fencelight-line-number)",
     "text-align: right", "user-select: none"],
   cssRule "pre.fencelight .code-title"
    ["margin: -" ++ s.padding ++ " -" ++ s.padding ++ " " ++ s.padding,
     "padding: 0.4em " ++ s.padding, "background-color: var(--fencelight-title-background)",
     "border-radius: " ++ s.borderRadius ++ " " ++ s.borderRadius ++ " 0 0", "font-weight: 600"],
   cssRule "pre.fencelight .language-label"
    ["position: absolute", "top: 0.4em", "right: 4.5em", "font-size: 0.8em", "opacity: 0.7",
     "user-select: none"],
   cssRule "pre.fencelight .copy-button"
    ["position: absolute", "top: 0.3em", "right: 0.5em", "font-size: 0.8em", "cursor: pointer"],
   cssRule "pre.fencelight.foldable .code-title" ["cursor: pointer"],
   cssRule "pre.fencelight.folded code" ["display: none"],
   cssRule "pre.fencelight.word-wrap code" ["white-space: pre-wrap", "word-break: break-word"],
   cssRule "pre.fencelight.excluded" ["display: none"],
   cssRule "code.fencelight-inline"
    ["font-family: " ++ s.fontFamily, "border-radius: " ++ s.borderRadius,
     "padding: 0.1em 0.3em"]]

/-- The style sheet for rendered blocks under some settings. -/
def styleSheet (s : Settings) : String :=
  String.join (styleRules s) ++
    if Text.isBlankText s.customCss then "" else "\n" ++ s.customCss ++ "\n"

end CodeFence
