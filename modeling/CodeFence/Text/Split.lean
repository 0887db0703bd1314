import CodeFence.Text.Blank

/-!
# Cutting text

Splitting at a character, splitting into lines and words, and looking for one text inside another.
Nothing is lost by a split: joining the pieces with the separator gives the text back.
-/

namespace CodeFence.Text

/-- Puts one more character in front of the pieces of a text. -/
def consPiece (isSep : Char → Bool) (c : Char) : List (List Char) → List (List Char)
  | [] => [[c]]
  | piece :: pieces => if isSep c then [] :: piece :: pieces else (c :: piece) :: pieces

/-- The pieces between the characters that satisfy `isSep`; there is always at least one. -/
def splitWhere (isSep : Char → Bool) (cs : List Char) : List (List Char) :=
  cs.foldr (consPiece isSep) [[]]

/-- The pieces between the occurrences of `sep`. -/
def splitAt (sep : Char) (cs : List Char) : List (List Char) :=
  splitWhere (· == sep) cs

theorem splitWhere_ne_nil (isSep : Char → Bool) (cs : List Char) : splitWhere isSep cs ≠ [] := by
  cases cs with
  | nil => simp [splitWhere]
  | cons c rest =>
    rw [splitWhere, List.foldr_cons, consPiece.eq_def]
    split
    · simp
    · split <;> simp

/-- Joining the pieces with the separator gives the text back. -/
theorem intercalate_splitAt (sep : Char) (cs : List Char) :
    [sep].intercalate (splitAt sep cs) = cs := by
  unfold splitAt
  induction cs with
  | nil => rfl
  | cons c rest ih =>
    cases h : splitWhere (· == sep) rest with
    | nil => exact absurd h (splitWhere_ne_nil _ rest)
    | cons piece pieces =>
      rw [h] at ih
      rw [splitWhere] at h
      rw [splitWhere, List.foldr_cons, h, consPiece]
      split
      · next hc =>
        obtain rfl : c = sep := by simpa using hc
        simpa [List.intercalate, List.intersperse] using ih
      · cases pieces <;> simp_all [List.intercalate, List.intersperse]

theorem splitAt_cons (sep c : Char) (cs : List Char) :
    splitAt sep (c :: cs) = consPiece (· == sep) c (splitAt sep cs) := rfl

/-- A text without the separator is one piece. -/
theorem splitAt_of_not_mem {sep : Char} {cs : List Char} (h : sep ∉ cs) :
    splitAt sep cs = [cs] := by
  induction cs with
  | nil => rfl
  | cons c rest ih =>
    rw [List.mem_cons, not_or] at h
    have hne : (c == sep) = false := beq_false_of_ne (Ne.symm h.1)
    rw [splitAt_cons, ih h.2, consPiece, hne]
    rfl

/-- What stands before the first occurrence of a character, and what follows it. -/
def cutAt? (sep : Char) : List Char → Option (List Char × List Char)
  | [] => none
  | c :: rest =>
    if c = sep then some ([], rest)
    else (cutAt? sep rest).map fun (before, after) => (c :: before, after)

/-- The rest of a text that begins with `lead`. -/
def after? : (lead text : List Char) → Option (List Char)
  | [], text => some text
  | _ :: _, [] => none
  | a :: lead, c :: text => if a = c then after? lead text else none

theorem after?_eq_some_iff {lead text rest : List Char} :
    after? lead text = some rest ↔ text = lead ++ rest := by
  induction lead generalizing text with
  | nil => simp [after?]
  | cons a lead ih =>
    cases text with
    | nil => simp [after?]
    | cons c text =>
      by_cases h : a = c
      · simp [after?, h, ih]
      · simp [after?, h, Ne.symm h]

/-- Whether a text begins with `lead`. -/
def startsWith (lead text : List Char) : Bool :=
  (after? lead text).isSome

/-- The beginning of a text that ends with `tail`. -/
def before? (tail text : List Char) : Option (List Char) :=
  (after? tail.reverse text.reverse).map List.reverse

/-- Looks for `needle` in a text that follows `before`, which is latest character first. -/
def cutAroundAfter (needle before : List Char) : List Char → Option (List Char × List Char)
  | [] => if needle.isEmpty then some (before.reverse, []) else none
  | c :: rest =>
    match after? needle (c :: rest) with
    | some after => some (before.reverse, after)
    | none => cutAroundAfter needle (c :: before) rest

/-- What stands before the first occurrence of `needle`, and what follows it. -/
def cutAround? (needle text : List Char) : Option (List Char × List Char) :=
  cutAroundAfter needle [] text

theorem cutAroundAfter_eq {needle before text a b : List Char}
    (h : cutAroundAfter needle before text = some (a, b)) :
    before.reverse ++ text = a ++ needle ++ b := by
  induction text generalizing before with
  | nil =>
    cases needle <;> simp_all [cutAroundAfter]
  | cons c rest ih =>
    rw [cutAroundAfter] at h
    split at h
    · next after hafter =>
      obtain ⟨rfl, rfl⟩ : before.reverse = a ∧ after = b := by simpa using h
      simp [after?_eq_some_iff.1 hafter]
    · simpa using ih h

/-- The two parts and the text between them make up the whole. -/
theorem cutAround?_eq {needle text a b : List Char} (h : cutAround? needle text = some (a, b)) :
    text = a ++ needle ++ b := by
  simpa using cutAroundAfter_eq h

/-- Whether `needle` occurs anywhere in the text. -/
def contains (needle text : List Char) : Bool :=
  (cutAround? needle text).isSome

/-- A line without the carriage return that may end it. -/
def dropReturn (line : List Char) : List Char :=
  if line.getLast? = some '\r' then line.dropLast else line

/-- The lines of a text: each ends at a newline, or at a carriage return and a newline.  A newline
at the very end opens no further line. -/
def lines (cs : List Char) : List (List Char) :=
  let pieces := splitAt '\n' cs
  let ended := pieces.dropLast.map dropReturn
  match pieces.getLast? with
  | some [] | none => ended
  | some last => ended ++ [last]

/-- The words of a text, cut at its blanks. -/
def words (cs : List Char) : List (List Char) :=
  (splitWhere isBlank cs).filter fun w => !w.isEmpty

end CodeFence.Text
