import CodeFence.Markdown.Event

/-!
# The code of a document, event by event

Markup takes the place of blocks of code, and it may take the place of code inside a line.  The text
of a block of code comes in pieces, so they are collected from the event that opens the block to the
one that closes it.  Whatever else comes in between is dropped.
-/

namespace CodeFence.Markdown

/-- A block of code whose text is still being collected. -/
structure OpenBlock where
  info : String
  code : String := ""

/-- The events so far, with their code replaced, and the block of code that is open. -/
structure Fold where
  done : List Event := []
  openBlock : Option OpenBlock := none

namespace Fold

variable {m : Type → Type} [Monad m]

/-- Takes one event.  `onBlock` gives the markup for a block of code, by its info string and its
text; `onSpan` may give markup for code inside a line. -/
def step (onBlock : String → String → m String) (onSpan : String → m (Option String)) (f : Fold) :
    Event → m Fold :=
  match f.openBlock with
  | some b => fun
    | .text piece => return { f with openBlock := some { b with code := b.code ++ piece } }
    | .stop .code => return { done := f.done ++ [.html (← onBlock b.info b.code)] }
    | _ => return f
  | none => fun
    | .start (.code kind) => return { f with openBlock := some { info := kind.info } }
    | .code text => do
      match ← onSpan text with
      | some raw => return { f with done := f.done ++ [.inlineHtml raw] }
      | none => return { f with done := f.done ++ [.code text] }
    | e => return { f with done := f.done ++ [e] }

/-- Takes events one after the other. -/
def run (onBlock : String → String → m String) (onSpan : String → m (Option String)) (f : Fold)
    (events : List Event) : m Fold :=
  events.foldlM (step onBlock onSpan) f

end Fold

end CodeFence.Markdown
