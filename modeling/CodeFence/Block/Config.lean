import CodeFence.Block.Language

/-!
# Configuration of one block

What an info string can ask for.  A configuration is valid when its language is not blank, its first
line number is positive, its highlighted lines are positive and ascending, and it does not ask for
both folding states at once; `sanitize` gives the nearest valid one.
-/

namespace CodeFence

/-- How one block is presented. -/
structure BlockConfig where
  /-- The canonical name of the language. -/
  language : String
  /-- The lines to mark, counted from one, ascending. -/
  highlightLines : List Nat := []
  showLineNumbers : Bool := false
  /-- The number beside the first line. -/
  startLine : Nat := 1
  title : Option String := none
  filename : Option String := none
  /-- Shown collapsed, with a way to expand it. -/
  fold : Bool := false
  /-- Shown expanded, with a way to collapse it. -/
  unfold : Bool := false
  /-- Rendered in full but hidden. -/
  exclude : Bool := false
  /-- The theme of this block alone. -/
  theme : Option String := none
  deriving DecidableEq

/-- The most characters that a title or a file name keeps. -/
def maxLabelLength : Nat := 200

/-- A label cut to the greatest length; an empty one is no label. -/
def capLabel (label : List Char) : Option String :=
  if label.isEmpty then none else some (String.ofList (label.take maxLabelLength))

theorem capLabel_eq_some_iff {cs : List Char} {label : String} :
    capLabel cs = some label ↔ cs ≠ [] ∧ String.ofList (cs.take maxLabelLength) = label := by
  simp [capLabel]

theorem capLabel_toList {label : String} (hne : label ≠ "") (hmax : label.length ≤ maxLabelLength) :
    capLabel label.toList = some label := by
  refine capLabel_eq_some_iff.mpr ⟨mt String.toList_eq_nil_iff.mp hne, ?_⟩
  rw [List.take_of_length_le hmax, String.ofList_toList]

/-- Whether numbers rise from each one to the next. -/
def isAscending : List Nat → Bool
  | a :: b :: rest => decide (a < b) && isAscending (b :: rest)
  | _ => true

/-- Puts a number in front of others, unless it equals the first of them. -/
def consDistinct (n : Nat) : List Nat → List Nat
  | [] => [n]
  | m :: ns => if n = m then m :: ns else n :: m :: ns

/-- Drops each number that equals the one before it. -/
def dropRepeats (ns : List Nat) : List Nat :=
  ns.foldr consDistinct []

/-- The last place of `values`, from `base` on and among `size` places, whose value is at most
`n`, found by halving the range; `base` itself if there is none. -/
def bisect (values : Array Nat) (n base size : Nat) : Nat :=
  if size ≤ 1 then base
  else
    let half := size / 2
    let mid := base + half
    let base := if (values[mid]?).any (n < ·) then base else mid
    bisect values n base (size - half)
termination_by size
decreasing_by omega

/-- Whether a number is found in an ascending list. -/
def findsLine (values : List Nat) (n : Nat) : Bool :=
  let values := values.toArray
  values[bisect values n 0 values.size]? == some n

namespace BlockConfig

/-- Whether a configuration is fit for use. -/
def isValid (c : BlockConfig) : Bool :=
  !Text.isBlankText c.language && decide (1 ≤ c.startLine) &&
    c.highlightLines.all (0 < ·) && isAscending c.highlightLines && !(c.fold && c.unfold)

/-- The nearest valid configuration.  If both folding states are asked for, neither is kept. -/
def sanitize (c : BlockConfig) : BlockConfig where
  language := canonicalLanguage c.language
  highlightLines := dropRepeats ((c.highlightLines.filter (0 < ·)).mergeSort (· ≤ ·))
  showLineNumbers := c.showLineNumbers
  startLine := max c.startLine 1
  title := c.title.bind fun t => capLabel t.toList
  filename := c.filename.bind fun f => capLabel f.toList
  fold := c.fold && !c.unfold
  unfold := c.unfold && !c.fold
  exclude := c.exclude
  theme := (c.theme.map Text.trimmed).filter (· ≠ "")

/-- The configuration itself if it is valid, the nearest valid one otherwise. -/
def repaired (c : BlockConfig) : BlockConfig :=
  if c.isValid then c else c.sanitize

/-- Whether a line, counted from one, is to be marked. -/
def isHighlighted (c : BlockConfig) (line : Nat) : Bool :=
  findsLine c.highlightLines line

/-- The text of the title bar: the title, or else the name of the file. -/
def displayTitle (c : BlockConfig) : Option String :=
  c.title <|> c.filename

end BlockConfig

end CodeFence
