import CodeFence.Markdown.Tree
import CodeFence.Text.Blank
import CodeFence.Text.Punctuation

/-!
# Emphasis

Runs of `*`, `_` and `~` may open or close emphasis, which depends on the characters beside them.  A
run that closes is matched with the nearest open one that fits, and what stands between the two is
styled; runs that find no partner are text.

Where no open run fits, none of those that are open then will be looked at again for a closing run of
the same kind.
-/

namespace CodeFence.Markdown

/-- A row of one mark, and the text behind it that stays only if the marks do. -/
structure MarkRun where
  mark : Char
  length : Nat
  canOpen : Bool
  canClose : Bool
  trailing : List Char := []

namespace MarkRun

/-- Whether a run can open emphasis between two characters.  There is none in front of the first
character of a line, nor behind the last one of a text. -/
def opens (mark : Char) (length : Nat) (before after : Option Char) : Bool :=
  match after with
  | none => false
  | some after =>
    let isFree := !Text.isPunctuation after
    !Text.isBlank after && before.all fun before =>
      (mark = '*' && isFree) || (mark = '~' && (decide (1 < length) || (before = '~' && isFree))) ||
        Text.isBlank before || Text.isPunctuation before

/-- Whether a run can close emphasis between two characters. -/
def closes (mark : Char) (length : Nat) (before after : Option Char) : Bool :=
  match before with
  | none => false
  | some before =>
    let isFree := !Text.isPunctuation before
    !Text.isBlank before && after.all fun after =>
      (mark = '*' && isFree) || (mark = '~' && ((decide (1 < length) && isFree) || before = '~')) ||
        Text.isBlank after || Text.isPunctuation after

/-- The run of a mark between two characters, unless it is text.  More than two tildes have no
force. -/
def between? (mark : Char) (length : Nat) (before after : Option Char) : Option MarkRun :=
  let canOpen := opens mark length before after
  let canClose := closes mark length before after
  if (canOpen || canClose) && (mark ≠ '~' || decide (length ≤ 2)) then
    some { mark, length, canOpen, canClose }
  else none

/-- Whether a run can do both. -/
def isBoth (r : MarkRun) : Bool :=
  r.canOpen && r.canClose

/-- The last marks of a run as text. -/
def text (r : MarkRun) (count : Nat) : Inline :=
  .text (String.ofList (List.replicate count r.mark ++ r.trailing))

/-- Whether the marks that are left of a closing run can be matched with an open one.  Tildes need
equal numbers, and where one of two runs can both open and close, their lengths may not add up to a
multiple of three unless both are multiples of it. -/
def fits (opener closer : MarkRun) (left : Nat) : Bool :=
  opener.mark = closer.mark && (closer.mark ≠ '~' || opener.length = left) &&
    ((!closer.isBoth && !opener.isBoth) || (left + opener.length) % 3 ≠ 0 || left % 3 = 0)

end MarkRun

/-- A part of a text whose emphasis has not been found yet. -/
inductive Element where
  | node (node : Inline)
  | run (run : MarkRun)
  /-- A line break that is written as a backslash. -/
  | escapedBreak

/-! ## Where a search ends -/

/-- How many of the open runs, outermost first, are not looked at for closing runs of a kind: those
of a mark with a certain remainder modulo three, or those of a mark that can only close. -/
structure Floor where
  mark : Char
  remainder : Option Nat
  depth : Nat

/-- What is known about searches that have failed. -/
abbrev Floors := List Floor

namespace Floors

/-- The depth that is known for a kind of closing runs. -/
def depth (fs : Floors) (mark : Char) (remainder : Option Nat) : Nat :=
  ((fs.find? fun f => f.mark = mark ∧ f.remainder = remainder).map Floor.depth).getD 0

/-- The floors with another depth for a kind of closing runs. -/
def set (fs : Floors) (mark : Char) (remainder : Option Nat) (depth : Nat) : Floors :=
  ⟨mark, remainder, depth⟩ :: fs.filter fun f => !(f.mark = mark ∧ f.remainder = remainder)

/-- How many of the open runs need not be looked at for so many marks of a closing run. -/
def of (fs : Floors) (closer : MarkRun) (left : Nat) : Nat :=
  if closer.mark = '~' then fs.depth '~' none
  else
    let same := fs.depth closer.mark (some (left % 3))
    if closer.isBoth then same else min same (fs.depth closer.mark none)

/-- The floors after a search among `depth` open runs has failed. -/
def raise (fs : Floors) (closer : MarkRun) (left depth : Nat) : Floors :=
  if closer.mark = '~' then fs.set '~' none depth
  else
    let same := if closer.isBoth || closer.mark = '*' then
      fs.set closer.mark (some (left % 3)) depth else fs
    if closer.isBoth then same else same.set closer.mark none depth

/-- The floors when only `depth` runs are open any more. -/
def lower (fs : Floors) (depth : Nat) : Floors :=
  fs.map fun f => { f with depth := min f.depth depth }

end Floors

/-! ## Matching -/

/-- A run that is open, how many of its marks are left, and what stands before it, latest first. -/
structure OpenRun where
  run : MarkRun
  left : Nat
  before : List Inline

/-- A text read in part: the open runs, innermost first, what stands behind the innermost one, latest
first, and which searches have failed. -/
structure EmphasisState where
  opened : List OpenRun := []
  nodes : List Inline := []
  floors : Floors := []

namespace EmphasisState

/-- The nodes behind an open run, with the run itself as text in front. -/
def giveUp (nodes : List Inline) (o : OpenRun) : List Inline :=
  nodes ++ o.run.text o.left :: o.before

/-- The open run among the innermost `count` that a closing one is matched with, what is open around
it, and what stands behind it; open runs in between are text. -/
def findOpener (closer : MarkRun) (left : Nat) (nodes : List Inline) :
    (count : Nat) → List OpenRun → Option (OpenRun × List OpenRun × List Inline)
  | 0, _ | _, [] => none
  | count + 1, o :: rest =>
    if o.run.fits closer left then some (o, rest, nodes)
    else findOpener closer left (giveUp nodes o) count rest

/-- Styles a text with a number of marks, from the inside out: two at a time are strong, and a last
one is emphasis. -/
def style (mark : Char) (count : Nat) (content : List Inline) : List Inline :=
  match count with
  | 0 => content
  | 1 => [.styled (if mark = '~' then .strikethrough else .emphasis) content]
  | count + 2 =>
    style mark count [.styled (if mark = '~' then .strikethrough else .strong) content]

/-- Closes open runs with the marks that are left of a closing one, as long as it finds them. -/
def close (closer : MarkRun) (s : EmphasisState) : (left : Nat) → EmphasisState × Nat
  | 0 => (s, 0)
  | left + 1 =>
    let depth := s.opened.length
    match findOpener closer (left + 1) s.nodes (depth - s.floors.of closer (left + 1)) s.opened with
    | none => ({ s with floors := s.floors.raise closer (left + 1) depth }, left + 1)
    | some (o, rest, nodes) =>
      let count := min (left + 1) o.left
      let styled := style closer.mark count nodes.reverse
      let floors := s.floors.lower rest.length
      let s : EmphasisState :=
        if count < o.left then
          { opened := { o with left := o.left - count } :: rest, nodes := styled, floors }
        else { opened := rest, nodes := styled ++ o.before, floors }
      if h : o.left = 0 then (s, left + 1)
      else close closer s (left + 1 - count)
termination_by left => left
decreasing_by omega

/-- Reads one part of a text. -/
def step (s : EmphasisState) : Element → EmphasisState
  | .node n => { s with nodes := n :: s.nodes }
  | .escapedBreak => { s with nodes := .hardBreak :: s.nodes }
  | .run r =>
    let (s, left) := if r.canClose then s.close r r.length else (s, r.length)
    if left = 0 then s
    else if r.canOpen then { s with opened := ⟨r, left, s.nodes⟩ :: s.opened, nodes := [] }
    else { s with nodes := r.text left :: s.nodes }

/-- The nodes of a text that has been read; what is still open is text. -/
def finish (s : EmphasisState) : List Inline :=
  (s.opened.foldl giveUp s.nodes).reverse

end EmphasisState

/-- The parts of a text in which nothing follows the backslash of a line break at its end: it is no
break, but text. -/
def dropLastBreak (elements : List Element) : List Element :=
  match elements.reverse with
  | .escapedBreak :: before => (.node (.text "\\") :: before).reverse
  | _ => elements

/-- The nodes that parts of a text stand for. -/
def emphasize (elements : List Element) : List Inline :=
  (elements.foldl EmphasisState.step {}).finish

end CodeFence.Markdown
