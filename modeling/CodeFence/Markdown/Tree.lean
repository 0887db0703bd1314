/-!
# Markdown documents

A document is a list of blocks, and the text of a block is a list of inline nodes.  Blocks are the
same before and after their text has been read, so they are given over any kind of content.  Whether
two documents are the same can be computed.
-/

namespace CodeFence.Markdown

/-- How a piece of text is set off. -/
inductive Style where
  | emphasis
  | strong
  | strikethrough
  deriving DecidableEq

/-- Where a link leads, or where an image is. -/
structure Target where
  url : String
  title : String := ""
  /-- Whether the address is that of a mailbox. -/
  isMail : Bool := false
  deriving DecidableEq

/-- A piece of text. -/
inductive Inline where
  | text (value : String)
  | code (value : String)
  /-- Markup that is written as it stands. -/
  | html (raw : String)
  | softBreak
  | hardBreak
  /-- The box in front of a task. -/
  | task (isDone : Bool)
  /-- A reference to a footnote. -/
  | note (label : String)
  | styled (style : Style) (content : List Inline)
  | link (target : Target) (content : List Inline)
  | image (target : Target) (content : List Inline)

namespace Inline

mutual

/-- Whether two pieces of text are the same. -/
def isSame : Inline → Inline → Bool
  | .text a, .text b | .code a, .code b | .html a, .html b | .note a, .note b => a = b
  | .softBreak, .softBreak | .hardBreak, .hardBreak => true
  | .task a, .task b => a = b
  | .styled a xs, .styled b ys => a = b && allSame xs ys
  | .link a xs, .link b ys | .image a xs, .image b ys => a = b && allSame xs ys
  | _, _ => false

/-- Whether two rows of pieces are the same. -/
def allSame : List Inline → List Inline → Bool
  | [], [] => true
  | x :: xs, y :: ys => x.isSame y && allSame xs ys
  | _, _ => false

end

mutual

theorem isSame_iff : ∀ a b : Inline, a.isSame b = true ↔ a = b
  | .text a, b | .code a, b | .html a, b | .note a, b | .softBreak, b | .hardBreak, b
  | .task a, b => by cases b <;> simp [isSame]
  | .styled a xs, b | .link a xs, b | .image a xs, b => by
      cases b <;> simp [isSame, allSame_iff xs]

theorem allSame_iff : ∀ xs ys : List Inline, allSame xs ys = true ↔ xs = ys
  | [], ys => by cases ys <;> simp [allSame]
  | x :: xs, ys => by cases ys <;> simp [allSame, isSame_iff x, allSame_iff xs]

end

instance : DecidableEq Inline := fun a b => decidable_of_iff _ (isSame_iff a b)

end Inline

/-- How the cells of a column are aligned. -/
inductive Alignment where
  | none
  | left
  | center
  | right
  deriving DecidableEq

/-- A block whose text is given as `ι`. -/
inductive Block (ι : Type) where
  | paragraph (content : ι)
  /-- Text that stands in an item without being a paragraph. -/
  | plain (content : ι)
  | heading (level : Nat) (content : ι)
  | rule
  /-- The box in front of a task without text. -/
  | task (isDone : Bool)
  /-- A block of code with its info string, which is empty for indented code. -/
  | code (info : String) (text : String)
  /-- Markup that is written as it stands. -/
  | html (raw : String)
  | quote (children : List (Block ι))
  /-- A list, numbered from `start` if that is given. -/
  | list (start : Option Nat) (items : List (List (Block ι)))
  | table (alignments : List Alignment) (head : List ι) (rows : List (List ι))
  /-- The text of a footnote. -/
  | footnote (label : String) (children : List (Block ι))

namespace Block

variable {ι κ : Type}

/-- Whether a block is nothing but text inside a tight item. -/
def tighten : Block ι → Block ι
  | .paragraph content => .plain content
  | b => b

variable {m : Type → Type} [Monad m]

mutual

/-- The block with its text changed. -/
def mapM (f : ι → m κ) : Block ι → m (Block κ)
  | .paragraph content => return .paragraph (← f content)
  | .plain content => return .plain (← f content)
  | .heading level content => return .heading level (← f content)
  | .rule => return .rule
  | .task isDone => return .task isDone
  | .code info text => return .code info text
  | .html raw => return .html raw
  | .quote children => return .quote (← mapAllM f children)
  | .list start items => return .list start (← mapItemsM f items)
  | .table alignments head rows =>
    return .table alignments (← head.mapM f) (← rows.mapM fun row => row.mapM f)
  | .footnote label children => return .footnote label (← mapAllM f children)

/-- The blocks with their text changed, one after the other. -/
def mapAllM (f : ι → m κ) : List (Block ι) → m (List (Block κ))
  | [] => return []
  | b :: rest => return (← b.mapM f) :: (← mapAllM f rest)

/-- The items with the text of their blocks changed, one after the other. -/
def mapItemsM (f : ι → m κ) : List (List (Block ι)) → m (List (List (Block κ)))
  | [] => return []
  | item :: rest => return (← mapAllM f item) :: (← mapItemsM f rest)

end

variable [DecidableEq ι]

mutual

/-- Whether two blocks are the same. -/
def isSame : Block ι → Block ι → Bool
  | .paragraph a, .paragraph b | .plain a, .plain b => a = b
  | .heading k a, .heading l b => k = l && a = b
  | .rule, .rule => true
  | .task a, .task b => a = b
  | .code a s, .code b t => a = b && s = t
  | .html a, .html b => a = b
  | .quote xs, .quote ys => allSame xs ys
  | .list a xs, .list b ys => a = b && itemsSame xs ys
  | .table a xs xss, .table b ys yss => a = b && xs = ys && xss = yss
  | .footnote a xs, .footnote b ys => a = b && allSame xs ys
  | _, _ => false

/-- Whether two rows of blocks are the same. -/
def allSame : List (Block ι) → List (Block ι) → Bool
  | [], [] => true
  | x :: xs, y :: ys => x.isSame y && allSame xs ys
  | _, _ => false

/-- Whether two rows of items are the same. -/
def itemsSame : List (List (Block ι)) → List (List (Block ι)) → Bool
  | [], [] => true
  | x :: xs, y :: ys => allSame x y && itemsSame xs ys
  | _, _ => false

end

mutual

theorem isSame_iff : ∀ a b : Block ι, a.isSame b = true ↔ a = b
  | .paragraph a, b | .plain a, b | .rule, b | .task a, b | .html a, b => by
      cases b <;> simp [isSame]
  | .heading k a, b | .code a s, b => by cases b <;> simp [isSame]
  | .table a xs xss, b => by cases b <;> simp [isSame, and_assoc]
  | .quote xs, b | .footnote a xs, b => by cases b <;> simp [isSame, allSame_iff xs]
  | .list a xs, b => by cases b <;> simp [isSame, itemsSame_iff xs]

theorem allSame_iff : ∀ xs ys : List (Block ι), allSame xs ys = true ↔ xs = ys
  | [], ys => by cases ys <;> simp [allSame]
  | x :: xs, ys => by cases ys <;> simp [allSame, isSame_iff x, allSame_iff xs]

theorem itemsSame_iff : ∀ xs ys : List (List (Block ι)), itemsSame xs ys = true ↔ xs = ys
  | [], ys => by cases ys <;> simp [itemsSame]
  | x :: xs, ys => by cases ys <;> simp [itemsSame, allSame_iff x, itemsSame_iff xs]

end

instance : DecidableEq (Block ι) := fun a b => decidable_of_iff _ (isSame_iff a b)

end Block

end CodeFence.Markdown
