import CodeFence.Hash
import Mathlib.Algebra.BigOperators.Fin
import Mathlib.Data.Int.ModEq
import Mathlib.Tactic.Ring

/-!
# The hash as a polynomial

A text is hashed unit by unit.  What is hashed so far is shifted by five bits and taken
off once, and the next unit is added; whatever does not fit in 32 bits is cut off at
every step.  All this is exact up to multiples of `2 ^ 32`, where the shift and the
difference are a product with 31.  So by Horner's rule the hash is congruent to a
polynomial in 31 with the units as coefficients, and it is the only signed word that is.

* `Text.Encodes` — what UTF-16 asks of the units of a text: a character of the basic
  plane is one unit, and any other one is a pair of surrogates;
* `Text.encodes_iff` — the units of a text are the only ones that encode it;
* `hashUnit_modEq`, `hashFrom_modEq` — the hash behind one more unit, and behind any
  number of them;
* `contentHash_exact` — the hash of a text, and of a text that goes on.
-/

namespace CodeFence.Text

/-- Units that encode a text.  The two surrogates of a pair hold the ten upper and the
ten lower bits of what the number of the character is above the basic plane. -/
inductive Encodes : List UInt16 → List Char → Prop
  | nil : Encodes [] []
  | unit {c : Char} {cs : List Char} {u : UInt16} {us : List UInt16}
      (hvalue : c.toNat = u.toNat) (rest : Encodes us cs) : Encodes (u :: us) (c :: cs)
  | pair {c : Char} {cs : List Char} {high low : UInt16} {us : List UInt16}
      (hhigh : 0xD800 ≤ high.toNat ∧ high.toNat ≤ 0xDBFF)
      (hlow : 0xDC00 ≤ low.toNat ∧ low.toNat ≤ 0xDFFF)
      (hvalue : c.toNat =
        0x10000 + (high.toNat - 0xD800) * 0x400 + (low.toNat - 0xDC00))
      (rest : Encodes us cs) : Encodes (high :: low :: us) (c :: cs)

variable {c : Char} {cs : List Char} {us : List UInt16}

/-- A character of the basic plane is one unit. -/
theorem unitsOf_of_lt (h : c.toNat < 0x10000) : unitsOf c = [c.toNat.toUInt16] :=
  if_pos h

/-- Any other character is two units. -/
theorem unitsOf_of_le (h : 0x10000 ≤ c.toNat) :
    unitsOf c = [(0xD800 + (c.toNat - 0x10000) / 0x400).toUInt16,
      (0xDC00 + (c.toNat - 0x10000) % 0x400).toUInt16] :=
  if_neg (Nat.not_lt.mpr h)

/-- The units of one more character in front. -/
theorem Encodes.unitsOf_append (c : Char) (h : Encodes us cs) :
    Encodes (unitsOf c ++ us) (c :: cs) := by
  by_cases hplane : c.toNat < 0x10000
  · rw [unitsOf_of_lt hplane]
    exact .unit (UInt16.toNat_ofNat_of_lt hplane).symm h
  · rw [unitsOf_of_le (Nat.le_of_not_lt hplane)]
    -- Below `0x110000` the distance from the plane has twenty bits, ten for each surrogate.
    have hbound : c.toNat < 0x110000 := by
      rcases c.valid with hvalid | ⟨-, hvalid⟩
      · exact Nat.lt_trans hvalid (by decide)
      · exact hvalid
    have hhigh : (0xD800 + (c.toNat - 0x10000) / 0x400).toUInt16.toNat =
        0xD800 + (c.toNat - 0x10000) / 0x400 :=
      UInt16.toNat_ofNat_of_lt (by simp only [UInt16.size]; omega)
    have hlow : (0xDC00 + (c.toNat - 0x10000) % 0x400).toUInt16.toNat =
        0xDC00 + (c.toNat - 0x10000) % 0x400 :=
      UInt16.toNat_ofNat_of_lt (by simp only [UInt16.size]; omega)
    exact .pair (by omega) (by omega) (by omega) h

/-- The units of a text encode it. -/
theorem encodes_units (cs : List Char) : Encodes (units cs) cs := by
  induction cs with
  | nil => exact .nil
  | cons c cs ih =>
      rw [units_cons]
      exact ih.unitsOf_append c

/-- No other units encode it. -/
theorem Encodes.eq_units (h : Encodes us cs) : us = units cs := by
  induction h with
  | nil => rfl
  | @unit c cs u us hvalue _ ih =>
      have hunit : unitsOf c = [u] := by
        rw [unitsOf_of_lt (hvalue ▸ u.toNat_lt), hvalue]
        exact congrArg (fun u => [u]) UInt16.ofNat_toNat
      calc u :: us = [u] ++ units cs := by rw [ih, List.singleton_append]
        _ = unitsOf c ++ units cs := by rw [hunit]
        _ = units (c :: cs) := (units_cons c cs).symm
  | @pair c cs high low us hhigh hlow hvalue _ ih =>
      have hpair : unitsOf c = [high, low] := by
        have hupper : 0xD800 + (c.toNat - 0x10000) / 0x400 = high.toNat := by omega
        have hlower : 0xDC00 + (c.toNat - 0x10000) % 0x400 = low.toNat := by omega
        rw [unitsOf_of_le (by omega), hupper, hlower]
        exact congrArg₂ (fun high low => [high, low]) UInt16.ofNat_toNat UInt16.ofNat_toNat
      calc high :: low :: us = [high, low] ++ us := rfl
        _ = unitsOf c ++ units cs := by rw [hpair, ih]
        _ = units (c :: cs) := (units_cons c cs).symm

/-- **The units of a text** are the only ones that encode it. -/
theorem encodes_iff : Encodes us cs ↔ us = units cs :=
  ⟨Encodes.eq_units, fun h => h ▸ encodes_units cs⟩

end CodeFence.Text

namespace CodeFence

/-- The sum of the units, each one multiplied by 31 once for every unit behind it. -/
def unitSum (us : List UInt16) : Nat :=
  ∑ i : Fin us.length, us[i].toNat * 31 ^ (us.length - (i + 1))

/-- One more unit in front has the highest power. -/
theorem unitSum_cons (u : UInt16) (us : List UInt16) :
    unitSum (u :: us) = u.toNat * 31 ^ us.length + unitSum us := by
  simp [unitSum, Fin.sum_univ_succ]

/-- A signed word is known by its value up to multiples of `2 ^ 32`. -/
theorem eq_iff_toInt_modEq {a b : Int32} : a = b ↔ a.toInt ≡ b.toInt [ZMOD 2 ^ 32] := by
  constructor
  · rintro rfl
    exact Int.ModEq.refl _
  · intro hmod
    have ha : -2 ^ 31 ≤ a.toInt ∧ a.toInt < 2 ^ 31 := ⟨a.le_toInt, a.toInt_lt⟩
    have hb : -2 ^ 31 ≤ b.toInt ∧ b.toInt < 2 ^ 31 := ⟨b.le_toInt, b.toInt_lt⟩
    rw [Int.ModEq] at hmod
    exact Int32.toInt_inj.mp (by omega)

/-- The shift by five bits and the difference are a product with 31. -/
theorem hashUnit_eq_mul (h : Int32) (u : UInt16) :
    hashUnit h u = h * 31 + u.toUInt32.toInt32 := by
  have hshift : h <<< 5 = h * 32 := by
    apply Int32.toBitVec.inj
    rw [Int32.toBitVec_shiftLeft, Int32.toBitVec_mul]
    exact BitVec.shiftLeft_eq_mul_twoPow _ _
  rw [hashUnit, hshift]
  grind

/-- A unit has no sign. -/
theorem toInt_unit (u : UInt16) : u.toUInt32.toInt32.toInt = u.toNat := by
  have hsmall : 2 * u.toUInt32.toBitVec.toNat < 2 ^ 32 := by
    have := u.toNat_lt
    simp only [UInt32.toNat_toBitVec, UInt16.toNat_toUInt32]
    omega
  calc u.toUInt32.toInt32.toInt = u.toUInt32.toBitVec.toInt := rfl
    _ = u.toUInt32.toBitVec.toNat := BitVec.toInt_eq_toNat_of_lt hsmall
    _ = u.toNat := by rw [UInt32.toNat_toBitVec, UInt16.toNat_toUInt32]

/-- What a word cuts off is a multiple of `2 ^ 32`. -/
theorem bmod_modEq (x : Int) : x.bmod (2 ^ 32) ≡ x [ZMOD 2 ^ 32] := by
  rw [Int.ModEq]
  exact Int.bmod_emod

/-- **One more unit**: what is cut off is a multiple of `2 ^ 32`. -/
theorem hashUnit_modEq (h : Int32) (u : UInt16) :
    (hashUnit h u).toInt ≡ h.toInt * 31 + u.toNat [ZMOD 2 ^ 32] := by
  rw [hashUnit_eq_mul, Int32.toInt_add, Int32.toInt_mul, toInt_unit]
  calc ((h.toInt * 31).bmod (2 ^ 32) + u.toNat).bmod (2 ^ 32)
      ≡ (h.toInt * 31).bmod (2 ^ 32) + u.toNat [ZMOD 2 ^ 32] := bmod_modEq _
    _ ≡ h.toInt * 31 + u.toNat [ZMOD 2 ^ 32] := (bmod_modEq _).add_right _

/-- **Any number of units**, by Horner's rule. -/
theorem hashFrom_modEq (h : Int32) (us : List UInt16) :
    (hashFrom h us).toInt ≡ h.toInt * 31 ^ us.length + unitSum us [ZMOD 2 ^ 32] := by
  -- The units behind the first one are hashed on from another hash than `h`.
  induction us generalizing h with
  | nil => simp [hashFrom, unitSum]
  | cons u us ih =>
      calc (hashFrom (hashUnit h u) us).toInt
          ≡ (hashUnit h u).toInt * 31 ^ us.length + unitSum us [ZMOD 2 ^ 32] := ih _
        _ ≡ (h.toInt * 31 + u.toNat) * 31 ^ us.length + unitSum us [ZMOD 2 ^ 32] :=
            ((hashUnit_modEq h u).mul_right _).add_right _
        _ = h.toInt * 31 ^ (u :: us).length + unitSum (u :: us) := by
            rw [unitSum_cons, List.length_cons]
            push_cast
            ring

/-- The hash of a text is congruent to the sum of its units. -/
theorem contentHash_modEq (code : String) :
    (contentHash code).toInt ≡ unitSum (Text.units code.toList) [ZMOD 2 ^ 32] := by
  simpa [contentHash] using hashFrom_modEq 0 (Text.units code.toList)

/-- A text that goes on is hashed on from the hash of its first part. -/
theorem contentHash_append (code next : String) :
    contentHash (code ++ next) = hashFrom (contentHash code) (Text.units next.toList) := by
  rw [contentHash, String.toList_append, Text.units_append, hashFrom, List.foldl_append]
  rfl

/-- **The hash of a text.**  Of all signed words it is the one that is congruent, up to
multiples of `2 ^ 32`, to the sum of the text's units times powers of 31.  These are the
units of UTF-16.  If more text follows, the hash is multiplied by 31 once for every unit
of that text, and the hash of that text is added. -/
theorem contentHash_exact (code : String) :
    (∀ us, Text.Encodes us code.toList ↔ us = Text.units code.toList) ∧
    (∀ h, h = contentHash code ↔
      h.toInt ≡ unitSum (Text.units code.toList) [ZMOD 2 ^ 32]) ∧
    ∀ next, (contentHash (code ++ next)).toInt ≡
      (contentHash code).toInt * 31 ^ (Text.units next.toList).length +
        (contentHash next).toInt [ZMOD 2 ^ 32] := by
  refine ⟨fun us => Text.encodes_iff, fun h => ?_, fun next => ?_⟩
  · rw [eq_iff_toInt_modEq]
    have hcode := contentHash_modEq code
    exact ⟨fun hsame => hsame.trans hcode, fun hsum => hsum.trans hcode.symm⟩
  · rw [contentHash_append]
    calc (hashFrom (contentHash code) (Text.units next.toList)).toInt
        ≡ (contentHash code).toInt * 31 ^ (Text.units next.toList).length +
            unitSum (Text.units next.toList) [ZMOD 2 ^ 32] := hashFrom_modEq _ _
      _ ≡ (contentHash code).toInt * 31 ^ (Text.units next.toList).length +
            (contentHash next).toInt [ZMOD 2 ^ 32] :=
          (contentHash_modEq next).symm.add_left _

example : contentHash "a😀" = (97 * 31 + 0xD83D) * 31 + 0xDE00 := by decide

end CodeFence
