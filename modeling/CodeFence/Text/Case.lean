import CodeFence.Text.CaseTable
import CodeFence.Text.Interval

/-!
# Letter case

Full lower and upper case as Unicode defines it.  Lowering looks at one context: a capital sigma
that ends a word becomes `ς`, any other one `σ`.
-/

namespace CodeFence.Text

/-- The first run that covers `n` gives its image; a code point outside every run stays. -/
def mapRuns (runs : List Run) (n : Nat) : Nat :=
  (runs.findSome? (Run.target? · n)).getD n

/-- The lower case of one character on its own. -/
def lowerChar (c : Char) : List Char :=
  if c = 'İ' then ['i', '\u0307'] else [Char.ofNat (mapRuns lowerRuns c.toNat)]

/-- The upper case of one character. -/
def upperChar (c : Char) : List Char :=
  match upperExpansions.lookup c.toNat with
  | some us => us.map Char.ofNat
  | none => [Char.ofNat (mapRuns upperRuns c.toNat)]

/-- Whether a character is transparent to the search for a neighbouring letter. -/
def isCaseIgnorable (c : Char) : Bool :=
  within caseIgnorableRanges c.toNat

/-- Whether a character is a letter that has a case. -/
def isCased (c : Char) : Bool :=
  within casedRanges c.toNat

/-- Whether the nearest character that is not transparent is a cased letter. -/
def meetsCased (cs : List Char) : Bool :=
  ((cs.dropWhile isCaseIgnorable).head?).any isCased

/-- Lowers the rest of a text whose part before it is `before`, nearest character first. -/
def lowerAfter (before : List Char) : List Char → List Char
  | [] => []
  | c :: rest =>
    let image :=
      if c = 'Σ' then
        if meetsCased before && !meetsCased rest then ['ς'] else ['σ']
      else lowerChar c
    image ++ lowerAfter (c :: before) rest

/-- The text in lower case. -/
def lower (cs : List Char) : List Char :=
  lowerAfter [] cs

/-- The text with its first character in upper case. -/
def capitalize : List Char → List Char
  | [] => []
  | c :: rest => upperChar c ++ rest

/-- One character as it counts when texts are compared without regard to case.  Only the dotless
`ı` is kept apart from the letter whose capital it shares. -/
def foldChar (c : Char) : List Char :=
  if c = 'ı' then [c] else ((lowerChar c).flatMap upperChar).flatMap lowerChar

/-- The text as it counts when texts are compared without regard to case. -/
def fold (cs : List Char) : List Char :=
  cs.flatMap foldChar

/-- The lower case of the ASCII letters alone. -/
def lowerAscii (cs : List Char) : List Char :=
  cs.map Char.toLower

end CodeFence.Text
