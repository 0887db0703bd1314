import CodeFence.Markdown.Tree

/-!
# The code of a document

Blocks of code and pieces of code inside lines can be replaced by something else, one after the
other in the order in which they stand in the document.  Here this is said of the document itself,
and `Fold` does it event by event.
-/

namespace CodeFence.Markdown

variable {m : Type → Type} [Monad m]

/-- What replaces a block of code by markup. -/
def placeBlock (onBlock : String → String → m String) (info text : String) :
    m (Block (List Inline)) :=
  return .html (← onBlock info text)

/-- What replaces code inside a line by markup, or leaves it. -/
def placeSpan (onSpan : String → m (Option String)) (text : String) : m Inline := do
  match ← onSpan text with
  | some raw => return .html raw
  | none => return .code text

namespace Inline

mutual

/-- The text with what `f` makes of each piece of code in it. -/
def replaceCode (f : String → m Inline) : Inline → m Inline
  | code s => f s
  | styled style content => return styled style (← replaceAllCode f content)
  | link target content => return link target (← replaceAllCode f content)
  | image target content => return image target (← replaceAllCode f content)
  | text s => return text s
  | html raw => return html raw
  | softBreak => return softBreak
  | hardBreak => return hardBreak
  | task isDone => return task isDone
  | note label => return note label

/-- The pieces of text with what `f` makes of each piece of code in them. -/
def replaceAllCode (f : String → m Inline) : List Inline → m (List Inline)
  | [] => return []
  | i :: rest => return (← i.replaceCode f) :: (← replaceAllCode f rest)

end

end Inline

namespace Block

mutual

/-- The block with what `onBlock` makes of each block of code, given its info string and its text,
and what `onInline` makes of each piece of code inside a line. -/
def replaceCode (onBlock : String → String → m (Block (List Inline)))
    (onInline : String → m Inline) : Block (List Inline) → m (Block (List Inline))
  | code info s => onBlock info s
  | paragraph content => return paragraph (← Inline.replaceAllCode onInline content)
  | plain content => return plain (← Inline.replaceAllCode onInline content)
  | heading level content => return heading level (← Inline.replaceAllCode onInline content)
  | quote children => return quote (← replaceAllCode onBlock onInline children)
  | list start items => return list start (← replaceItemCode onBlock onInline items)
  | table alignments head rows =>
    return table alignments (← head.mapM (Inline.replaceAllCode onInline))
      (← rows.mapM fun row => row.mapM (Inline.replaceAllCode onInline))
  | footnote label children => return footnote label (← replaceAllCode onBlock onInline children)
  | rule => return rule
  | task isDone => return task isDone
  | html raw => return html raw

/-- The blocks with their code replaced. -/
def replaceAllCode (onBlock : String → String → m (Block (List Inline)))
    (onInline : String → m Inline) : List (Block (List Inline)) → m (List (Block (List Inline)))
  | [] => return []
  | b :: rest =>
    return (← b.replaceCode onBlock onInline) :: (← replaceAllCode onBlock onInline rest)

/-- The items with the code in their blocks replaced. -/
def replaceItemCode (onBlock : String → String → m (Block (List Inline)))
    (onInline : String → m Inline) :
    List (List (Block (List Inline))) → m (List (List (Block (List Inline))))
  | [] => return []
  | item :: rest =>
    return (← replaceAllCode onBlock onInline item) :: (← replaceItemCode onBlock onInline rest)

end

end Block

end CodeFence.Markdown
