import CodeFence.Text.Numeral
import CodeFence.Text.Split

/-!
# The words of a JSON text

A JSON text is first cut into brackets, separators, literals, numbers and strings; blanks between
them are dropped.  A string whose escapes name half of a surrogate pair on its own is cut like any
other, but it has no value.
-/

namespace CodeFence.Json

/-- A number as written.  A natural number of at most 64 bits, without sign, fraction and exponent,
is kept apart from the rest, which are a whole number times a power of ten.  The whole number has as
many of the digits as fit into 64 bits; the others only count for the power. -/
inductive Number where
  | natural (value : Nat)
  | scaled (mantissa exponent : Int)
  deriving DecidableEq

/-- A word of a JSON text. -/
inductive Token where
  | openArray
  | closeArray
  | openObject
  | closeObject
  | comma
  | colon
  | null
  | bool (value : Bool)
  | number (value : Number)
  | string (value? : Option String)

/-- The value of four hexadecimal digits. -/
def hexUnit? (a b c d : Char) : Option Nat :=
  Text.numeral? 16 Text.hexValue? [a, b, c, d]

/-- Reads a string up to its closing quote, behind the code units read so far, latest first. -/
def stringBody (units : List Nat) : List Char → Option (List Nat × List Char)
  | '"' :: rest => some (units.reverse, rest)
  | '\\' :: 'u' :: a :: b :: c :: d :: rest =>
    match hexUnit? a b c d with
    | some u => stringBody (u :: units) rest
    | none => none
  | '\\' :: '"' :: rest => stringBody (0x22 :: units) rest
  | '\\' :: '\\' :: rest => stringBody (0x5C :: units) rest
  | '\\' :: '/' :: rest => stringBody (0x2F :: units) rest
  | '\\' :: 'b' :: rest => stringBody (0x08 :: units) rest
  | '\\' :: 'f' :: rest => stringBody (0x0C :: units) rest
  | '\\' :: 'n' :: rest => stringBody (0x0A :: units) rest
  | '\\' :: 'r' :: rest => stringBody (0x0D :: units) rest
  | '\\' :: 't' :: rest => stringBody (0x09 :: units) rest
  | c :: rest => if c = '\\' ∨ c.toNat < 0x20 then none else stringBody (c.toNat :: units) rest
  | [] => none

theorem length_of_stringBody {units us : List Nat} {cs rest : List Char}
    (h : stringBody units cs = some (us, rest)) : rest.length < cs.length := by
  fun_induction stringBody units cs
  all_goals first
    | (simp at h; done)
    | (rename_i ih; have := ih h; simp only [List.length_cons]; omega)
    | (simp only [Option.some.injEq, Prod.mk.injEq] at h; simp [h])

/-- Joins the halves of surrogate pairs behind the characters found so far, latest first.  A half
without its partner makes the whole worthless. -/
def pairUp (done : List Char) : List Nat → Option (List Char)
  | [] => some done.reverse
  | u :: rest =>
    if 0xD800 ≤ u ∧ u < 0xDC00 then
      match rest with
      | v :: rest =>
        if 0xDC00 ≤ v ∧ v < 0xE000 then
          pairUp (Char.ofNat (0x10000 + (u - 0xD800) * 0x400 + (v - 0xDC00)) :: done) rest
        else none
      | [] => none
    else if 0xDC00 ≤ u ∧ u < 0xE000 then none
    else pairUp (Char.ofNat u :: done) rest

/-- The digits at the front of a text, and what follows them. -/
def digits (cs : List Char) : List Char × List Char :=
  (cs.takeWhile Char.isDigit, cs.dropWhile Char.isDigit)

/-- The value of a row of digits; no digits stand for zero. -/
def digitsValue (ds : List Char) : Nat :=
  (Text.readDigits 10 Text.digitValue? 0 ds).getD 0

/-- Reads the fraction of a number, if there is one. -/
def fraction? : List Char → Option (Option (List Char) × List Char)
  | '.' :: cs => if (digits cs).1.isEmpty then none else some (some (digits cs).1, (digits cs).2)
  | cs => some (none, cs)

/-- The sign in front of a number, and the text behind it. -/
def sign : List Char → Int × List Char
  | '-' :: cs => (-1, cs)
  | cs => (1, cs)

/-- A text without the plus sign that an exponent may begin with. -/
def dropPlus : List Char → List Char
  | '+' :: '-' :: cs => '+' :: '-' :: cs
  | '+' :: cs => cs
  | cs => cs

/-- Reads the exponent of a number, if there is one. -/
def exponent? : List Char → Option (Option Int × List Char)
  | [] => some (none, [])
  | e :: cs =>
    if e = 'e' ∨ e = 'E' then
      let (s, body) := sign (dropPlus cs)
      if (digits body).1.isEmpty then none
      else some (some (s * digitsValue (digits body).1), (digits body).2)
    else some (none, e :: cs)

/-- The number that digits denote behind digits that denote `acc`, as far as it fits into 64 bits,
and how many of them that are. -/
def leading (acc : Nat) : List Char → Nat × Nat
  | [] => (acc, 0)
  | c :: rest =>
    let next := acc * 10 + digitsValue [c]
    if next < Text.bitBound 64 then
      let (value, count) := leading next rest
      (value, count + 1)
    else (acc, 0)

/-- The number with the given sign, whole digits, fraction and exponent. -/
def Number.ofParts (s : Int) (whole : List Char) (fraction : Option (List Char))
    (exponent : Option Int) : Number :=
  let (front, count) := leading 0 whole
  let dropped := whole.length - count
  if s = 1 ∧ fraction.isNone ∧ exponent.isNone ∧ dropped = 0 then .natural front
  else
    let (value, places) := leading front (fraction.getD [])
    .scaled (s * value) (exponent.getD 0 + dropped - places)

/-- Whether digits may stand in front of the point: there is one, and none follows a leading
zero. -/
def isWhole (ds : List Char) : Bool :=
  !ds.isEmpty && (ds.length == 1 || ds.head? != some '0')

/-- Reads a number. -/
def number? (cs : List Char) : Option (Number × List Char) :=
  let (s, body) := sign cs
  if isWhole (digits body).1 then
    (fraction? (digits body).2).bind fun (fraction, rest) =>
      (exponent? rest).map fun (exponent, rest) =>
        (.ofParts s (digits body).1 fraction exponent, rest)
  else none

theorem length_digits (cs : List Char) :
    (digits cs).1.length + (digits cs).2.length = cs.length := by
  rw [← List.length_append, digits, List.takeWhile_append_dropWhile]

theorem length_sign_le (cs : List Char) : (sign cs).2.length ≤ cs.length := by
  unfold sign; split <;> simp

theorem length_dropPlus_le (cs : List Char) : (dropPlus cs).length ≤ cs.length := by
  unfold dropPlus; split <;> simp

theorem length_of_fraction? {cs rest : List Char} {f : Option (List Char)}
    (h : fraction? cs = some (f, rest)) : rest.length ≤ cs.length := by
  unfold fraction? at h
  split at h
  · next ds =>
    split at h
    · simp at h
    · obtain ⟨-, rfl⟩ : _ ∧ (digits ds).2 = rest := by simpa using h
      have := length_digits ds
      simp only [List.length_cons]
      omega
  · simp_all

theorem length_of_exponent? {cs rest : List Char} {e : Option Int}
    (h : exponent? cs = some (e, rest)) : rest.length ≤ cs.length := by
  unfold exponent? at h
  split at h
  · simp_all
  · next c cs =>
    split at h
    · dsimp only at h
      split at h
      · simp at h
      · obtain ⟨-, rfl⟩ : _ ∧ (digits (sign (dropPlus cs)).2).2 = rest := by simpa using h
        have := length_digits (sign (dropPlus cs)).2
        have := length_sign_le (dropPlus cs)
        have := length_dropPlus_le cs
        simp only [List.length_cons]
        omega
    · simp_all

theorem length_of_number? {cs rest : List Char} {n : Number}
    (h : number? cs = some (n, rest)) : rest.length < cs.length := by
  unfold number? at h
  dsimp only at h
  split at h
  · next hw =>
    obtain ⟨⟨f, r1⟩, hf, h⟩ := Option.bind_eq_some_iff.1 h
    obtain ⟨⟨e, r2⟩, he, h⟩ := Option.map_eq_some_iff.1 h
    obtain ⟨-, rfl⟩ : _ ∧ r2 = rest := by simpa using h
    have h1 := length_of_fraction? hf
    have h2 := length_of_exponent? he
    have h3 := length_digits (sign cs).2
    have h4 := length_sign_le cs
    have h5 : (digits (sign cs).2).1.length ≠ 0 := fun h0 => by
      simp [isWhole, List.length_eq_zero_iff.1 h0] at hw
    dsimp only at h1 h2
    omega
  · simp at h

/-- Whether a character may stand between the words of a JSON text. -/
def isGap (c : Char) : Bool :=
  c = ' ' || c = '\n' || c = '\t' || c = '\r'

/-- Cuts a text into words, behind those found so far, latest first. -/
def tokensOnto (done : List Token) (cs : List Char) : Option (List Token) :=
  match cs with
  | [] => some done.reverse
  | '[' :: rest => tokensOnto (.openArray :: done) rest
  | ']' :: rest => tokensOnto (.closeArray :: done) rest
  | '\x7b' :: rest => tokensOnto (.openObject :: done) rest
  | '\x7d' :: rest => tokensOnto (.closeObject :: done) rest
  | ',' :: rest => tokensOnto (.comma :: done) rest
  | ':' :: rest => tokensOnto (.colon :: done) rest
  | 'n' :: 'u' :: 'l' :: 'l' :: rest => tokensOnto (.null :: done) rest
  | 't' :: 'r' :: 'u' :: 'e' :: rest => tokensOnto (.bool true :: done) rest
  | 'f' :: 'a' :: 'l' :: 's' :: 'e' :: rest => tokensOnto (.bool false :: done) rest
  | '"' :: rest =>
    match h : stringBody [] rest with
    | some (units, rest') =>
      have := length_of_stringBody h
      tokensOnto (.string ((pairUp [] units).map String.ofList) :: done) rest'
    | none => none
  | c :: rest =>
    if isGap c then tokensOnto done rest
    else match h : number? (c :: rest) with
      | some (n, rest') =>
        have : rest'.length < rest.length + 1 := length_of_number? h
        tokensOnto (.number n :: done) rest'
      | none => none
termination_by cs.length
decreasing_by all_goals simp only [List.length_cons]; omega

/-- The words of a JSON text, if it can be cut into words. -/
def tokens? (cs : List Char) : Option (List Token) :=
  tokensOnto [] cs

end CodeFence.Json
