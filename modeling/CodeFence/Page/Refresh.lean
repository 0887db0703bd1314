import CodeFence.Page.Wrapper
import CodeFence.Pipeline

/-!
# Rendering blocks again

Every wrapper of a page is replaced by a new one for the same source and configuration, rendered
under the settings, themes and display mode of the moment.  What stands between the wrappers stays.
-/

namespace CodeFence.Pipeline

variable {σ : Type}

/-- Renders a source and puts it into a wrapper. -/
def renderWrapped (code : String) (config : BlockConfig) (now : Nat) :
    StateM (Pipeline σ) String := do
  return Wrapper.render config code (← renderHtml code config.language config none now)

/-- Renders a recorded block again, on a line of its own. -/
def refreshBlock (a : BlockAttributes) (now : Nat) : StateM (Pipeline σ) String := do
  return (← renderWrapped a.originalCode a.blockConfig now) ++ "\n"

/-- Renders a part of a page again.  Text stays as it is. -/
def refreshPiece (now : Nat) : Wrapper.Piece → StateM (Pipeline σ) String
  | .text cs => return String.ofList cs
  | .block a => renderWrapped a.originalCode a.blockConfig now

/-- Renders every block of a page again. -/
def refresh (html : String) (now : Nat) : StateM (Pipeline σ) String := do
  return String.join (← (Wrapper.pieces html.toList).mapM (refreshPiece now))

end CodeFence.Pipeline
