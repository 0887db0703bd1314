import CodeFence.Proofs.ColorText
import Mathlib.Data.List.TakeWhile

/-!
# Colors that are written and read

A color is written with two lower-case digits for each channel, and those of the
opacity are left out if it is opaque.  Reading takes either case, and takes a color
without an opacity for an opaque one.  So a color is read back as it was, and digits
that are read are written again as they were, but for their case and for an opacity
that need not be said.

* `hexDigit_digitChar`, `HexDigit.unique` — the digit of a value, the value of a digit;
* `isPair_channelDigits`, `IsPair.channelDigits_eq` — the digits of a channel;
* `digits`, `spells_digits` — a color is written in digits that spell it;
* `shortened`, `Spells.digits_eq` — and any digits that spell it are these, once they
  are shortened;
* `toCss_exact` — both directions together.
-/

namespace CodeFence

namespace Text

variable {c : Char} {value other : Nat}

/-- A value has a digit of its own. -/
theorem hexDigit_digitChar (h : value < 16) : HexDigit (Nat.digitChar value) value := by
  have hall : ∀ n < 16, hexDigits[n]? = some (Nat.digitChar n).toLower := by decide
  exact hall value h

theorem HexDigit.unique (h : HexDigit c value) (h' : HexDigit c other) : value = other := by
  have hsome := hexValue?_eq_some_iff.mpr h
  rw [hexValue?_eq_some_iff.mpr h'] at hsome
  exact (Option.some.inj hsome).symm

/-- A digit in lower case is the one of its value. -/
theorem HexDigit.digitChar_eq (h : HexDigit c value) : Nat.digitChar value = c.toLower := by
  have hall : ∀ n < 16, hexDigits[n]? = some (Nat.digitChar n) := by decide
  exact Option.some.inj ((hall value h.lt).symm.trans h)

end Text

namespace Color

open Text

variable {a b : Char} {channel other : UInt8} {color : Color} {cs : List Char}

/-- **A channel is written** in two digits that denote it. -/
theorem isPair_channelDigits (channel : UInt8) :
    IsPair (Nat.digitChar (channel.toNat / 16)) (Nat.digitChar (channel.toNat % 16)) channel := by
  have hbound := channel.toNat_lt
  refine ⟨channel.toNat / 16, channel.toNat % 16, hexDigit_digitChar (by omega),
    hexDigit_digitChar (by omega), by omega⟩

theorem IsPair.unique (h : IsPair a b channel) (h' : IsPair a b other) : channel = other := by
  obtain ⟨x, y, hx, hy, hvalue⟩ := h
  obtain ⟨x', y', hx', hy', hvalue'⟩ := h'
  rw [hx.unique hx', hy.unique hy', ← hvalue'] at hvalue
  exact UInt8.toNat_inj.mp hvalue

/-- **Digits of a channel** are written in lower case. -/
theorem IsPair.channelDigits_eq (h : IsPair a b channel) :
    channelDigits channel = [a.toLower, b.toLower] := by
  obtain ⟨x, y, hx, hy, hvalue⟩ := h
  have hylt := hy.lt
  have hhigh : channel.toNat / 16 = x := by omega
  have hlow : channel.toNat % 16 = y := by omega
  rw [channelDigits, hhigh, hlow, hx.digitChar_eq, hy.digitChar_eq]

/-- Only an opaque channel is written with the highest digit twice. -/
theorem channelDigits_eq_iff : channelDigits channel = ['f', 'f'] ↔ channel = 255 := by
  constructor
  · intro h
    obtain ⟨hhigh, hlow⟩ := List.cons_eq_cons.mp h
    have hpair := isPair_channelDigits channel
    have hdigit : HexDigit 'f' 15 := rfl
    rw [hhigh, (List.cons_eq_cons.mp hlow).1] at hpair
    exact hpair.unique ⟨15, 15, hdigit, hdigit, rfl⟩
  · rintro rfl
    decide

/-! ## Whole colors -/

/-- The digits that a color is written with. -/
def digits (color : Color) : List Char :=
  channelDigits color.red ++ channelDigits color.green ++ channelDigits color.blue ++
    if color.alpha = 255 then [] else channelDigits color.alpha

theorem toCss_eq (color : Color) : color.toCss = "#" ++ String.ofList color.digits := by
  rw [← String.toList_inj, toCss, String.toList_append]
  simp only [String.toList_ofList]
  rfl

/-- **A color is written in digits that spell it.** -/
theorem spells_digits (color : Color) : Spells IsPair color.digits color := by
  obtain ⟨red, green, blue, alpha⟩ := color
  unfold digits
  by_cases halpha : alpha = 255
  · subst halpha
    exact .six (isPair_channelDigits red) (isPair_channelDigits green)
      (isPair_channelDigits blue)
  · rw [if_neg halpha]
    exact .eight (isPair_channelDigits red) (isPair_channelDigits green)
      (isPair_channelDigits blue) (isPair_channelDigits alpha)

/-- Digits in lower case, and without an opacity that says opaque. -/
def shortened (cs : List Char) : List Char :=
  let lower := cs.map Char.toLower
  if lower.drop 6 = ['f', 'f'] then lower.take 6 else lower

/-- **Digits that spell a color** are those it is written with, once they are shortened. -/
theorem Spells.digits_eq (h : Spells IsPair cs color) : color.digits = shortened cs := by
  unfold digits shortened
  cases h with
  | six hred hgreen hblue =>
      rw [hred.channelDigits_eq, hgreen.channelDigits_eq, hblue.channelDigits_eq]
      rfl
  | eight hred hgreen hblue halpha =>
      rw [hred.channelDigits_eq, hgreen.channelDigits_eq, hblue.channelDigits_eq,
        if_congr channelDigits_eq_iff.symm rfl rfl, halpha.channelDigits_eq]
      split
      · rename_i hopaque
        exact (if_pos hopaque).symm
      · rename_i hseen
        exact (if_neg hseen).symm

/-- Behind one mark, digits are read as they are. -/
theorem unmarked_of_digits {text : String} (h : ∀ c ∈ text.toList, IsHexDigit c) :
    unmarked ("#" ++ text) = text.toList := by
  have hmark : unmarked ("#" ++ text) = text.toList.dropWhile (· = '#') := by
    rw [unmarked, String.toList_append]
    rfl
  rw [hmark, List.dropWhile_eq_self_iff]
  intro hpos hfirst
  have hdigit := h _ (List.getElem_mem hpos)
  rw [of_decide_eq_true hfirst] at hdigit
  exact absurd hdigit (by decide)

/-- **What digits are read as** behind one mark is the color that they spell. -/
theorem parse_digits {text : String} (h : Spells IsPair text.toList color) :
    parse ("#" ++ text) = .ok color := by
  have hdigits := h.forall_mem fun _ _ _ hpair => hpair.isHexDigit
  rw [parse_eq_ok_iff, unmarked_of_digits hdigits]
  exact h.imp fun _ _ _ _ hpair => Or.inl hpair

/-- **Colors and their texts.**  Every color is read back from the text that it is
written as, so two colors are never written alike.  And six or eight hexadecimal digits
in any case, behind one mark, are a color, which is written as these digits in lower
case behind one mark, without the last two of eight if these say that it is opaque. -/
theorem toCss_exact :
    (∀ color, parse (toCss color) = .ok color) ∧ Function.Injective toCss ∧
      ∀ text : String, text.length = 6 ∨ text.length = 8 → (∀ c ∈ text.toList, IsHexDigit c) →
        ∃ color, parse ("#" ++ text) = .ok color ∧
          color.toCss = "#" ++ String.ofList (shortened text.toList) := by
  have hread : ∀ color, parse (toCss color) = .ok color := by
    intro color
    rw [toCss_eq]
    apply parse_digits
    rw [String.toList_ofList]
    exact spells_digits color
  refine ⟨hread, ?_, ?_⟩
  · intro color other hsame
    have hother := hread other
    rw [← hsame, hread color] at hother
    exact Except.ok.inj hother
  · intro text hlength hdigits
    obtain ⟨color, hspells⟩ := exists_spells_isPair_iff.mpr ⟨hlength, hdigits⟩
    refine ⟨color, parse_digits hspells, ?_⟩
    rw [toCss_eq, hspells.digits_eq]

/-- Eight digits in both cases that say opaque. -/
theorem toCss_exact_opaque :
    let text := "C0ffEeFf"
    ((text.length = 6 ∨ text.length = 8) ∧ ∀ c ∈ text.toList, IsHexDigit c) ∧
      ∃ color, parse "#C0ffEeFf" = .ok color ∧ color.toCss = "#c0ffee" := by
  intro text
  have hlength : text.length = 6 ∨ text.length = 8 := Or.inr (by decide)
  have hall : text.toList.all (IsHexDigit ·) := by decide
  have hdigits : ∀ c ∈ text.toList, IsHexDigit c := by
    simpa only [List.all_eq_true, decide_eq_true_eq] using hall
  have hshort : "#" ++ String.ofList (shortened text.toList) = "#c0ffee" := by decide
  obtain ⟨color, hread, hwritten⟩ := toCss_exact.2.2 text hlength hdigits
  exact ⟨⟨hlength, hdigits⟩, color, hread, hwritten.trans hshort⟩

end Color

end CodeFence
