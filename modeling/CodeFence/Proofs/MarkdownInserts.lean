import CodeFence.Markdown.Code
import Mathlib.Data.List.Forall2

/-!
# What stands in for the code of a document

Apart from its text, a document holds code and markup of its own.  When its code
is replaced, everything stays where it is: there is exactly one thing in the
place of each piece of code, in the same order, and all else is kept.  This
holds whatever the replacement reads and changes, and every single one happens
in a state that those before it have left.

* `Insert`, `Inline.inserts`, `Block.inserts` — code and markup in the order of
  the document;
* `Filled` — what may stand where an insert was;
* `Walk` — an action that keeps an invariant and fills inserts;
* `walk_replaceAllCode` — replacing the code of a document fills its inserts.
-/

namespace CodeFence.Markdown

/-- A thing in a document that is not its text. -/
inductive Insert where
  /-- A block of code. -/
  | block (info text : String)
  /-- A block of markup. -/
  | html (raw : String)
  /-- Code inside a line. -/
  | span (text : String)
  /-- Markup inside a line. -/
  | inner (raw : String)
  deriving DecidableEq

namespace Insert

/-- Whether an insert is markup. -/
def isRaw : Insert → Bool
  | html _ | inner _ => true
  | block _ _ | span _ => false

/-- The info string and the text of a block of code. -/
def code? : Insert → Option (String × String)
  | block info text => some (info, text)
  | _ => none

end Insert

namespace Inline

mutual

/-- The inserts of a piece of text, in order. -/
def inserts : Inline → List Insert
  | code s => [.span s]
  | html raw => [.inner raw]
  | styled _ content | link _ content | image _ content => allInserts content
  | text _ | softBreak | hardBreak | task _ | note _ => []

/-- The inserts of pieces of text, in order. -/
def allInserts : List Inline → List Insert
  | [] => []
  | i :: rest => i.inserts ++ allInserts rest

end

end Inline

namespace Block

mutual

/-- The inserts of a block, in order. -/
def inserts : Block (List Inline) → List Insert
  | code info text => [.block info text]
  | html raw => [.html raw]
  | paragraph content | plain content | heading _ content => Inline.allInserts content
  | quote children | footnote _ children => allInserts children
  | list _ items => itemInserts items
  | table _ head rows =>
    head.flatMap Inline.allInserts ++ rows.flatMap fun row => row.flatMap Inline.allInserts
  | rule | task _ => []

/-- The inserts of blocks, in order. -/
def allInserts : List (Block (List Inline)) → List Insert
  | [] => []
  | b :: rest => b.inserts ++ allInserts rest

/-- The inserts of items, in order. -/
def itemInserts : List (List (Block (List Inline))) → List Insert
  | [] => []
  | item :: rest => allInserts item ++ itemInserts rest

end

end Block

/-- The info string and the text of every block of code in a document, in order. -/
def codeBlocks (document : List (Block (List Inline))) : List (String × String) :=
  (Block.allInserts document).filterMap Insert.code?

/-- What stands where an insert was: markup for a block of code, markup or the
same code for code inside a line, and the insert itself for all else. -/
inductive Filled (onBlock : String → String → String → Prop) (onSpan : String → Prop) :
    Insert → Insert → Prop
  | block {info text raw : String} (h : onBlock info text raw) :
      Filled onBlock onSpan (.block info text) (.html raw)
  | span {text raw : String} (h : onSpan raw) : Filled onBlock onSpan (.span text) (.inner raw)
  | code (text : String) : Filled onBlock onSpan (.span text) (.span text)
  | html (raw : String) : Filled onBlock onSpan (.html raw) (.html raw)
  | inner (raw : String) : Filled onBlock onSpan (.inner raw) (.inner raw)

theorem Filled.imp {B B' : String → String → String → Prop} {N N' : String → Prop}
    (hB : ∀ info text raw, B info text raw → B' info text raw) (hN : ∀ raw, N raw → N' raw)
    {i j : Insert} (h : Filled B N i j) : Filled B' N' i j := by
  cases h with
  | block h => exact .block (hB _ _ _ h)
  | span h => exact .span (hN _ h)
  | code text => exact .code text
  | html raw => exact .html raw
  | inner raw => exact .inner raw

/-- Something stands in for each thing. -/
theorem exists_mem_of_forall₂ {α β : Type} {R : α → β → Prop} {as : List α} {bs : List β} {a : α}
    (h : List.Forall₂ R as bs) (ha : a ∈ as) : ∃ b ∈ bs, R a b := by
  induction h with
  | nil => cases ha
  | cons hfirst _ ih =>
      rcases List.mem_cons.mp ha with rfl | hmem
      · exact ⟨_, List.mem_cons_self, hfirst⟩
      · obtain ⟨b, hb, hab⟩ := ih hmem
        exact ⟨b, List.mem_cons_of_mem _ hb, hab⟩

/-! ## Actions that fill inserts -/

variable {ι τ α β γ : Type}

/-- An action that keeps an invariant, and whose result holds, in the places of
given things, what may stand there. -/
def Walk (I : τ → Prop) (R : ι → ι → Prop) (before : List ι) (after : α → List ι)
    (x : StateM τ α) : Prop :=
  ∀ s, I s → I (x s).2 ∧ List.Forall₂ R before (after (x s).1)

namespace Walk

variable {I : τ → Prop} {R : ι → ι → Prop} {before others : List ι} {after : α → List ι}
  {further : β → List ι} {x : StateM τ α} {y : StateM τ β}

theorem pure {a : α} (h : List.Forall₂ R before (after a)) :
    Walk I R before after (Pure.pure a) :=
  fun _ hs => ⟨hs, h⟩

/-- What a result holds follows from what a walk gives for it. -/
theorem imp {κ : Type} {S : κ → κ → Prop} {others : List κ} {held : α → List κ}
    (hx : Walk I R before after x)
    (h : ∀ a, List.Forall₂ R before (after a) → List.Forall₂ S others (held a)) :
    Walk I S others held x :=
  fun s hs => ⟨(hx s hs).1, h _ (hx s hs).2⟩

/-- What is built around a result holds what the result holds. -/
theorem around (hx : Walk I R before after x) {build : α → γ} {held : γ → List ι}
    (hheld : ∀ a, held (build a) = after a) :
    Walk I R before held (do return build (← x)) := by
  intro s hs
  obtain ⟨hkept, hfilled⟩ := hx s hs
  refine ⟨hkept, ?_⟩
  change List.Forall₂ R before (held (build (x s).1))
  rw [hheld]
  exact hfilled

/-- One action after the other fills the inserts of both. -/
theorem both (hx : Walk I R before after x) (hy : Walk I R others further y)
    {build : α → β → γ} {held : γ → List ι}
    (hheld : ∀ a b, held (build a b) = after a ++ further b) :
    Walk I R (before ++ others) held (do return build (← x) (← y)) := by
  intro s hs
  obtain ⟨hkept, hfilled⟩ := hx s hs
  obtain ⟨hkept', hfilled'⟩ := hy (x s).2 hkept
  refine ⟨hkept', ?_⟩
  change List.Forall₂ R (before ++ others) (held (build (x s).1 (y (x s).2).1))
  rw [hheld]
  exact List.rel_append hfilled hfilled'

/-- Actions on the elements of a list, one after the other. -/
theorem mapM {f : α → StateM τ β} {held : α → List ι} {as : List α}
    (h : ∀ a, Walk I R (held a) further (f a)) :
    Walk I R (as.flatMap held) (fun bs => bs.flatMap further) (as.mapM f) := by
  induction as with
  | nil => exact Walk.pure List.Forall₂.nil
  | cons a as ih =>
      rw [List.mapM_cons, List.flatMap_cons]
      exact (h a).both ih fun b bs => List.flatMap_cons

end Walk

/-! ## Replaced code -/

section Replacement

variable {I : τ → Prop} {onBlock : String → String → StateM τ (Block (List Inline))}
  {onInline : String → StateM τ Inline} {B : String → String → String → Prop} {N : String → Prop}

/-- A replacement of code inside a line. -/
def FillsSpans (I : τ → Prop) (N : String → Prop) (onInline : String → StateM τ Inline) : Prop :=
  ∀ text s, I s → I (onInline text s).2 ∧
    ((onInline text s).1 = .code text ∨ ∃ raw, N raw ∧ (onInline text s).1 = .html raw)

/-- A replacement of blocks of code. -/
def FillsBlocks (I : τ → Prop) (B : String → String → String → Prop)
    (onBlock : String → String → StateM τ (Block (List Inline))) : Prop :=
  ∀ info text s, I s → I (onBlock info text s).2 ∧
    ∃ raw, B info text raw ∧ (onBlock info text s).1 = .html raw

theorem FillsSpans.walk (h : FillsSpans I N onInline) (text : String) :
    Walk I (Filled B N) [.span text] Inline.inserts (onInline text) := by
  intro s hs
  obtain ⟨hkept, hcode | ⟨raw, hraw, hhtml⟩⟩ := h text s hs
  · rw [hcode]
    exact ⟨hkept, .cons (.code text) .nil⟩
  · rw [hhtml]
    exact ⟨hkept, .cons (.span hraw) .nil⟩

theorem FillsBlocks.walk (h : FillsBlocks I B onBlock) (info text : String) :
    Walk I (Filled B N) [.block info text] Block.inserts (onBlock info text) := by
  intro s hs
  obtain ⟨hkept, raw, hraw, hhtml⟩ := h info text s hs
  rw [hhtml]
  exact ⟨hkept, .cons (.block hraw) .nil⟩

mutual

theorem Inline.walk_replaceCode (h : FillsSpans I N onInline) (i : Inline) :
    Walk I (Filled B N) i.inserts Inline.inserts (i.replaceCode onInline) := by
  cases i with
  | code s => exact h.walk s
  | html raw => exact .pure (.cons (.inner raw) .nil)
  | styled style content => exact (Inline.walk_replaceAllCode h content).around fun _ => rfl
  | link target content => exact (Inline.walk_replaceAllCode h content).around fun _ => rfl
  | image target content => exact (Inline.walk_replaceAllCode h content).around fun _ => rfl
  | text s => exact .pure .nil
  | softBreak => exact .pure .nil
  | hardBreak => exact .pure .nil
  | task isDone => exact .pure .nil
  | note label => exact .pure .nil

theorem Inline.walk_replaceAllCode (h : FillsSpans I N onInline) (content : List Inline) :
    Walk I (Filled B N) (Inline.allInserts content) Inline.allInserts
      (Inline.replaceAllCode onInline content) := by
  cases content with
  | nil => exact .pure .nil
  | cons i rest =>
      exact (Inline.walk_replaceCode h i).both (Inline.walk_replaceAllCode h rest) fun _ _ => rfl

end

mutual

theorem Block.walk_replaceCode (hblock : FillsBlocks I B onBlock)
    (hspan : FillsSpans I N onInline) (b : Block (List Inline)) :
    Walk I (Filled B N) b.inserts Block.inserts (b.replaceCode onBlock onInline) := by
  have htext := Inline.walk_replaceAllCode (B := B) hspan
  cases b with
  | code info text => exact hblock.walk info text
  | html raw => exact .pure (.cons (.html raw) .nil)
  | paragraph content => exact (htext content).around fun _ => rfl
  | plain content => exact (htext content).around fun _ => rfl
  | heading level content => exact (htext content).around fun _ => rfl
  | quote children => exact (Block.walk_replaceAllCode hblock hspan children).around fun _ => rfl
  | list start items => exact (Block.walk_replaceItemCode hblock hspan items).around fun _ => rfl
  | table alignments head rows =>
      exact (Walk.mapM htext).both (Walk.mapM fun row => Walk.mapM htext) fun _ _ => rfl
  | footnote label children =>
      exact (Block.walk_replaceAllCode hblock hspan children).around fun _ => rfl
  | rule => exact .pure .nil
  | task isDone => exact .pure .nil

theorem Block.walk_replaceAllCode (hblock : FillsBlocks I B onBlock)
    (hspan : FillsSpans I N onInline) (document : List (Block (List Inline))) :
    Walk I (Filled B N) (Block.allInserts document) Block.allInserts
      (Block.replaceAllCode onBlock onInline document) := by
  cases document with
  | nil => exact .pure .nil
  | cons b rest =>
      exact (Block.walk_replaceCode hblock hspan b).both
        (Block.walk_replaceAllCode hblock hspan rest) fun _ _ => rfl

theorem Block.walk_replaceItemCode (hblock : FillsBlocks I B onBlock)
    (hspan : FillsSpans I N onInline) (items : List (List (Block (List Inline)))) :
    Walk I (Filled B N) (Block.itemInserts items) Block.itemInserts
      (Block.replaceItemCode onBlock onInline items) := by
  cases items with
  | nil => exact .pure .nil
  | cons item rest =>
      exact (Block.walk_replaceAllCode hblock hspan item).both
        (Block.walk_replaceItemCode hblock hspan rest) fun _ _ => rfl

end

end Replacement

end CodeFence.Markdown
