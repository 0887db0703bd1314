import CodeFence.Theme.Color
import CodeFence.Proofs.FileStores
import Mathlib.Data.List.Nodup

/-!
# The text of a color

Behind any number of marks, a color is written as six or eight hexadecimal
digits, two for each channel.  The reader takes each channel as a number of its
own, and a number may carry a plus sign: so it also takes a plus sign and one
digit for a channel, which is no pair of digits.  Nothing else gets through.

* `HexDigit`, `IsPair` — a hexadecimal digit, and two of them as a channel;
* `IsSigned` — a plus sign and one digit;
* `Spells` — the text of a color, given what may stand for a channel;
* `channel?_eq_ok_iff` — what is read as a channel;
* `parse_exact` — what is read as a color, and of which texts that is what the
  digits say;
* `not_digits_of_signed` — a text that is read although not all of it is digits.
-/

namespace CodeFence

namespace Text

/-- The hexadecimal digits in lower case, each at the place of its value. -/
def hexDigits : List Char :=
  "0123456789abcdef".toList

/-- A character is the hexadecimal digit of a value, in either case. -/
def HexDigit (c : Char) (value : Nat) : Prop :=
  hexDigits[value]? = some c.toLower

/-- A character is a hexadecimal digit. -/
def IsHexDigit (c : Char) : Prop :=
  c.toLower ∈ hexDigits

instance : DecidablePred IsHexDigit := fun c =>
  inferInstanceAs (Decidable (c.toLower ∈ hexDigits))

variable {a b c : Char} {value : Nat}

theorem isHexDigit_iff : IsHexDigit c ↔ ∃ value, HexDigit c value :=
  List.mem_iff_getElem?

theorem HexDigit.lt (h : HexDigit c value) : value < 16 := by
  obtain ⟨hlength, -⟩ := List.getElem?_eq_some_iff.mp h
  exact hlength

/-- No character outside ASCII is a digit, and none is read as one. -/
theorem hexValue?_of_not_ascii (h : 128 ≤ c.toNat) :
    hexValue? c = none ∧ ¬ IsHexDigit c := by
  have hle : ∀ d : Char, d.toNat < 128 → ¬ c ≤ d := by
    intro d hd hcd
    have hnat : c.toNat ≤ d.toNat := hcd
    omega
  have hdigit : c.isDigit = false :=
    Bool.and_eq_false_iff.mpr (Or.inr (decide_eq_false (hle '9' (by decide))))
  have hsame : c.toLower = c := dif_neg fun hupper => hle 'Z' (by decide) hupper.2
  refine ⟨?_, fun hmem => ?_⟩
  · simp [hexValue?, hdigit, hle 'f' (by decide), hle 'F' (by decide)]
  · have hascii : hexDigits.all (fun d => d.toNat < 128) = true := by decide
    rw [IsHexDigit, hsame] at hmem
    have hlt := of_decide_eq_true (List.all_eq_true.mp hascii c hmem)
    omega

/-- A digit is read as its place among the digits. -/
theorem hexValue?_eq_idxOf? (c : Char) : hexValue? c = hexDigits.idxOf? c.toLower := by
  have hascii : ∀ n < 128, hexValue? (Char.ofNat n) =
      hexDigits.idxOf? (Char.ofNat n).toLower := by decide
  by_cases h : c.toNat < 128
  · have hc := hascii c.toNat h
    rwa [Char.ofNat_toNat] at hc
  · obtain ⟨hnone, hno⟩ := hexValue?_of_not_ascii (Nat.le_of_not_lt h)
    rw [hnone, eq_comm, List.idxOf?_eq_none_iff]
    exact hno

/-- **A digit is read as its value**, and nothing else is read. -/
theorem hexValue?_eq_some_iff : hexValue? c = some value ↔ HexDigit c value := by
  have hnodup : hexDigits.Nodup := by decide
  rw [hexValue?_eq_idxOf?, List.idxOf?_eq_some_iff, HexDigit, List.getElem?_eq_some_iff]
  constructor
  · rintro ⟨hlength, hget, -⟩
    exact ⟨hlength, hget⟩
  · rintro ⟨hlength, hget⟩
    refine ⟨hlength, hget, fun j hj hagain => ?_⟩
    have hplace : j = value := (hnodup.getElem_inj_iff).mp (hagain.trans hget.symm)
    omega

theorem not_hexDigit_plus : ¬ HexDigit '+' value := fun h =>
  absurd (isHexDigit_iff.mpr ⟨value, h⟩) (by decide)

theorem HexDigit.ascii (h : HexDigit c value) : c.toNat < 128 := by
  apply Classical.byContradiction
  intro hc
  exact (hexValue?_of_not_ascii (Nat.le_of_not_lt hc)).2 (isHexDigit_iff.mpr ⟨value, h⟩)

/-- What is read of two characters. -/
theorem hex?_pair_eq_some_iff :
    hex? 255 [a, b] = some value ↔
      (∃ x y, HexDigit a x ∧ HexDigit b y ∧ value = 16 * x + y) ∨ a = '+' ∧ HexDigit b value := by
  rw [hex?, Option.filter_eq_some_iff, decide_eq_true_eq]
  -- A plus sign is dropped only from the front; what is left has one digit.
  by_cases ha : a = '+'
  · subst ha
    have hread : numeral? 16 hexValue? (dropPlus ['+', b]) = hexValue? b := by
      cases hb : hexValue? b <;> simp [dropPlus, numeral?, readDigits, hb]
    rw [hread, hexValue?_eq_some_iff]
    constructor
    · rintro ⟨hb, -⟩
      exact Or.inr ⟨rfl, hb⟩
    · rintro (⟨x, y, hx, -⟩ | ⟨-, hb⟩)
      · exact absurd hx not_hexDigit_plus
      · exact ⟨hb, by have := hb.lt; omega⟩
  · have hdrop : dropPlus [a, b] = [a, b] := by
      unfold dropPlus
      split
      · rename_i heq
        exact absurd (List.cons_eq_cons.mp heq).1 ha
      · rfl
    have hread : numeral? 16 hexValue? [a, b] =
        (hexValue? a).bind fun x => (hexValue? b).map fun y => 16 * x + y := by
      cases hx : hexValue? a <;> cases hy : hexValue? b <;>
        simp [numeral?, readDigits, hx, hy, Nat.mul_comm]
    rw [hdrop, hread]
    simp only [Option.bind_eq_some_iff, Option.map_eq_some_iff, hexValue?_eq_some_iff]
    constructor
    · rintro ⟨⟨x, hx, y, hy, rfl⟩, -⟩
      exact Or.inl ⟨x, y, hx, hy, rfl⟩
    · rintro (⟨x, y, hx, hy, rfl⟩ | ⟨hplus, -⟩)
      · have hxlt := hx.lt
        have hylt := hy.lt
        exact ⟨⟨x, hx, y, hy, rfl⟩, by omega⟩
      · exact absurd hplus ha

end Text

namespace Color

open Text

/-- Two hexadecimal digits that denote a channel. -/
def IsPair (a b : Char) (channel : UInt8) : Prop :=
  ∃ x y, HexDigit a x ∧ HexDigit b y ∧ channel.toNat = 16 * x + y

/-- A plus sign, and one hexadecimal digit that denotes a channel. -/
def IsSigned (a b : Char) (channel : UInt8) : Prop :=
  a = '+' ∧ HexDigit b channel.toNat

/-- The text of a color, two characters for each channel: those of the opacity
may be left out, and the color is opaque then. -/
inductive Spells (channel : Char → Char → UInt8 → Prop) : List Char → Color → Prop
  | six {a b c d e f : Char} {red green blue : UInt8} (hred : channel a b red)
      (hgreen : channel c d green) (hblue : channel e f blue) :
      Spells channel [a, b, c, d, e, f] ⟨red, green, blue, 255⟩
  | eight {a b c d e f g h : Char} {red green blue alpha : UInt8} (hred : channel a b red)
      (hgreen : channel c d green) (hblue : channel e f blue) (halpha : channel g h alpha) :
      Spells channel [a, b, c, d, e, f, g, h] ⟨red, green, blue, alpha⟩

variable {a b : Char} {channel : UInt8} {color : Color} {cs : List Char} {text : String}

/-- **A channel is read** from two digits or from a plus sign and one digit. -/
theorem channel?_eq_ok_iff :
    channel? a b = .ok channel ↔ IsPair a b channel ∨ IsSigned a b channel := by
  have hread : channel? a b = .ok channel ↔ hex? 255 [a, b] = some channel.toNat := by
    unfold channel?
    cases hhex : hex? 255 [a, b] with
    | none => simp
    | some n =>
        have hbound : n ≤ 255 := by
          have hfilter := (Option.filter_eq_some_iff.mp hhex).2
          simpa using hfilter
        have hnat : n.toUInt8.toNat = n := by
          rw [Nat.toUInt8, UInt8.toNat_ofNat']
          exact Nat.mod_eq_of_lt (by omega)
        simp only [Except.ok.injEq, Option.some.injEq]
        constructor
        · rintro rfl
          exact hnat.symm
        · intro heq
          exact UInt8.toNat_inj.mp (hnat.trans heq)
  rw [hread, hex?_pair_eq_some_iff]
  rfl

theorem Spells.imp {first second : Char → Char → UInt8 → Prop}
    (himp : ∀ a b n, a ∈ cs → first a b n → second a b n) (h : Spells first cs color) :
    Spells second cs color := by
  cases h with
  | six hred hgreen hblue =>
      exact .six (himp _ _ _ (by simp) hred) (himp _ _ _ (by simp) hgreen)
        (himp _ _ _ (by simp) hblue)
  | eight hred hgreen hblue halpha =>
      exact .eight (himp _ _ _ (by simp) hred) (himp _ _ _ (by simp) hgreen)
        (himp _ _ _ (by simp) hblue) (himp _ _ _ (by simp) halpha)

/-- What holds of both characters of every channel holds of the whole text. -/
theorem Spells.forall_mem {channel : Char → Char → UInt8 → Prop} {P : Char → Prop}
    (hP : ∀ a b n, channel a b n → P a ∧ P b) (h : Spells channel cs color) : ∀ c ∈ cs, P c := by
  cases h with
  | six hred hgreen hblue =>
      have hall := And.intro (hP _ _ _ hred) (And.intro (hP _ _ _ hgreen) (hP _ _ _ hblue))
      simpa [and_assoc] using hall
  | eight hred hgreen hblue halpha =>
      have hall := And.intro (And.intro (hP _ _ _ hred) (hP _ _ _ hgreen))
        (And.intro (hP _ _ _ hblue) (hP _ _ _ halpha))
      simpa [and_assoc] using hall

theorem IsPair.isHexDigit (h : IsPair a b channel) : IsHexDigit a ∧ IsHexDigit b := by
  obtain ⟨x, y, hx, hy, -⟩ := h
  exact ⟨isHexDigit_iff.mpr ⟨x, hx⟩, isHexDigit_iff.mpr ⟨y, hy⟩⟩

theorem exists_isPair (ha : IsHexDigit a) (hb : IsHexDigit b) : ∃ channel, IsPair a b channel := by
  obtain ⟨x, hx⟩ := isHexDigit_iff.mp ha
  obtain ⟨y, hy⟩ := isHexDigit_iff.mp hb
  have hbound : 16 * x + y < 256 := by
    have hxlt := hx.lt
    have hylt := hy.lt
    omega
  refine ⟨(16 * x + y).toUInt8, x, y, hx, hy, ?_⟩
  rw [Nat.toUInt8, UInt8.toNat_ofNat']
  exact Nat.mod_eq_of_lt hbound

/-- **Six or eight digits**, and nothing else, are a color written with two digits
for each channel. -/
theorem exists_spells_isPair_iff :
    (∃ color, Spells IsPair cs color) ↔
      (cs.length = 6 ∨ cs.length = 8) ∧ ∀ c ∈ cs, IsHexDigit c := by
  constructor
  · rintro ⟨color, h⟩
    refine ⟨?_, h.forall_mem fun _ _ _ hpair => hpair.isHexDigit⟩
    cases h with
    | six => exact Or.inl rfl
    | eight => exact Or.inr rfl
  · rintro ⟨hlength | hlength, hdigits⟩
    · match cs, hlength with
      | [a, b, c, d, e, f], _ =>
          simp only [List.forall_mem_cons] at hdigits
          obtain ⟨ha, hb, hc, hd, he, hf, -⟩ := hdigits
          obtain ⟨red, hred⟩ := exists_isPair ha hb
          obtain ⟨green, hgreen⟩ := exists_isPair hc hd
          obtain ⟨blue, hblue⟩ := exists_isPair he hf
          exact ⟨_, .six hred hgreen hblue⟩
    · match cs, hlength with
      | [a, b, c, d, e, f, g, h], _ =>
          simp only [List.forall_mem_cons] at hdigits
          obtain ⟨ha, hb, hc, hd, he, hf, hg, hh, -⟩ := hdigits
          obtain ⟨red, hred⟩ := exists_isPair ha hb
          obtain ⟨green, hgreen⟩ := exists_isPair hc hd
          obtain ⟨blue, hblue⟩ := exists_isPair he hf
          obtain ⟨alpha, halpha⟩ := exists_isPair hg hh
          exact ⟨_, .eight hred hgreen hblue halpha⟩

/-- What may stand for a channel. -/
def IsRead (a b : Char) (channel : UInt8) : Prop :=
  IsPair a b channel ∨ IsSigned a b channel

/-- What the characters behind the marks are read as. -/
theorem ofChars_eq_ok_iff : ofChars cs = .ok color ↔ Spells IsRead cs color := by
  constructor
  · intro h
    unfold ofChars at h
    split at h
    · simp only [bind_eq_ok_iff, channel?_eq_ok_iff] at h
      obtain ⟨red, hred, green, hgreen, blue, hblue, hcolor⟩ := h
      cases hcolor
      exact .six hred hgreen hblue
    · simp only [bind_eq_ok_iff, channel?_eq_ok_iff] at h
      obtain ⟨red, hred, green, hgreen, blue, hblue, alpha, halpha, hcolor⟩ := h
      cases hcolor
      exact .eight hred hgreen hblue halpha
    · cases h
  · intro h
    cases h with
    | six hred hgreen hblue =>
        rw [ofChars, channel?_eq_ok_iff.mpr hred, channel?_eq_ok_iff.mpr hgreen,
          channel?_eq_ok_iff.mpr hblue]
        rfl
    | eight hred hgreen hblue halpha =>
        rw [ofChars, channel?_eq_ok_iff.mpr hred, channel?_eq_ok_iff.mpr hgreen,
          channel?_eq_ok_iff.mpr hblue, channel?_eq_ok_iff.mpr halpha]
        rfl

theorem IsRead.ascii (h : IsRead a b channel) : a.toNat < 128 ∧ b.toNat < 128 := by
  rcases h with ⟨x, y, hx, hy, -⟩ | ⟨rfl, hb⟩
  · exact ⟨hx.ascii, hy.ascii⟩
  · exact ⟨by decide, hb.ascii⟩

/-- A text without the marks in front. -/
def unmarked (text : String) : List Char :=
  text.toList.dropWhile (· = '#')

/-- What a text is read as: characters outside ASCII stand for no channel. -/
theorem parse_eq_ok_iff : parse text = .ok color ↔ Spells IsRead (unmarked text) color := by
  unfold parse
  rw [← unmarked]
  dsimp only
  split
  · exact ofChars_eq_ok_iff
  · rename_i hascii
    constructor
    · intro h
      cases h
    · intro h
      have hall := h.forall_mem fun _ _ _ hread => hread.ascii
      exact absurd (by simpa using hall) hascii

/-- **What is read as a color.**  Behind its marks a text is read as a color exactly
if it gives a channel in every two characters, by two hexadecimal digits or by a
plus sign and one.  Two digits for every channel are six or eight hexadecimal
digits and nothing else; and that this is what is read holds of a text exactly if it
is refused or has no plus sign behind its marks. -/
theorem parse_exact (text : String) :
    (∀ color, parse text = .ok color ↔ Spells IsRead (unmarked text) color) ∧
      ((∃ color, Spells IsPair (unmarked text) color) ↔
        ((unmarked text).length = 6 ∨ (unmarked text).length = 8) ∧
          ∀ c ∈ unmarked text, IsHexDigit c) ∧
      ((∀ color, parse text = .ok color ↔ Spells IsPair (unmarked text) color) ↔
        '+' ∉ unmarked text ∨ ∃ e, parse text = .error e) := by
  refine ⟨fun color => parse_eq_ok_iff, exists_spells_isPair_iff, ?_⟩
  constructor
  · intro hpairs
    cases hread : parse text with
    | error e => exact Or.inr ⟨e, rfl⟩
    | ok color =>
        left
        intro hplus
        have hdigits := ((hpairs color).mp hread).forall_mem fun _ _ _ hpair => hpair.isHexDigit
        exact absurd (hdigits '+' hplus) (by decide)
  · rintro (hplus | ⟨e, herror⟩) color
    · rw [parse_eq_ok_iff]
      constructor
      · refine Spells.imp fun a b n ha hread => hread.resolve_right ?_
        rintro ⟨rfl, -⟩
        exact hplus ha
      · exact Spells.imp fun _ _ _ _ hpair => Or.inl hpair
    · rw [herror]
      constructor
      · intro h
        cases h
      · intro hpairs
        have hread := parse_eq_ok_iff.mpr (hpairs.imp fun _ _ _ _ hpair => Or.inl hpair)
        rw [herror] at hread
        cases hread

/-- Three channels by a plus sign and one digit each are read as a color, and they
are not six hexadecimal digits. -/
theorem not_digits_of_signed :
    parse "#+1+2+3" = .ok ⟨1, 2, 3, 255⟩ ∧ unmarked "#+1+2+3" = "+1+2+3".toList ∧
      ¬ ∀ c ∈ unmarked "#+1+2+3", IsHexDigit c := by
  refine ⟨by decide, by decide, fun hdigits => ?_⟩
  exact absurd (hdigits '+' (by decide)) (by decide)

end Color

end CodeFence
