import CodeFence.Text.Case
import CodeFence.Text.Blank

/-!
# Display mode

Whether the surroundings of a block are dark or light, where that is known.
-/

namespace CodeFence

/-- The color scheme of the surroundings. -/
inductive DisplayMode where
  | dark
  | light
  deriving DecidableEq

namespace DisplayMode

/-- The name of a mode. -/
def name : DisplayMode → String
  | dark => "dark"
  | light => "light"

/-- A text that names no mode, in lower case and without blanks around it. -/
structure Unknown where
  text : String
  deriving DecidableEq

/-- The wording of the error. -/
def Unknown.message (u : Unknown) : String :=
  "Unknown display mode: " ++ u.text

/-- Reads a mode, without regard to the case of ASCII letters and to blanks around it. -/
def parse (text : String) : Except Unknown DisplayMode :=
  match String.ofList (Text.lowerAscii (Text.trim text.toList)) with
  | "dark" => .ok dark
  | "light" => .ok light
  | other => .error ⟨other⟩

end DisplayMode

end CodeFence
