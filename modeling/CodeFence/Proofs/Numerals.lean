import CodeFence.Text.Numeral

/-!
# Numerals

A bounded number is read from a text exactly if the text is a decimal numeral of
it: one or more ASCII digits, in front of which a plus sign may stand.

* `Writes` — the numerals of a number;
* `readDigits_eq_ofDigitChars` — digits stand for the number that the standard
  library makes of them;
* `decimal?_eq_some_iff`, `whole?_eq_some_iff` — what is read from a text.
-/

namespace CodeFence.Text

variable {cs : List Char} {bound n : Nat}

/-- The text is a decimal numeral of the number, with or without a plus sign. -/
def Writes (cs : List Char) (n : Nat) : Prop :=
  ∃ digits, (cs = digits ∨ cs = '+' :: digits) ∧ digits ≠ [] ∧
    (∀ c ∈ digits, c.isDigit = true) ∧ Nat.ofDigitChars 10 digits 0 = n

/-- A numeral has nothing in it but digits and a plus sign. -/
theorem Writes.isDigit_or_eq_plus (h : Writes cs n) :
    ∀ c ∈ cs, c.isDigit = true ∨ c = '+' := by
  obtain ⟨digits, rfl | rfl, -, hdigits, -⟩ := h
  · intro c hc
    exact Or.inl (hdigits c hc)
  · intro c hc
    rcases List.mem_cons.mp hc with rfl | hc
    · exact Or.inr rfl
    · exact Or.inl (hdigits c hc)

theorem Writes.ne_nil (h : Writes cs n) : cs ≠ [] := by
  obtain ⟨digits, rfl | rfl, hne, -, -⟩ := h
  · exact hne
  · exact List.cons_ne_nil _ _

/-- Reading digits is what it is in the standard library. -/
theorem readDigits_eq_ofDigitChars {ds : List Char} (hds : ∀ c ∈ ds, c.isDigit = true)
    (acc : Nat) :
    readDigits 10 digitValue? acc ds = some (Nat.ofDigitChars 10 ds acc) := by
  induction ds generalizing acc with
  | nil => rfl
  | cons c rest ih =>
      have hc := hds c List.mem_cons_self
      have hrest := ih fun d hd => hds d (List.mem_cons_of_mem _ hd)
      rw [readDigits, digitValue?, if_pos hc, Option.bind_some, hrest, Nat.mul_comm]
      rfl

/-- What is read as digits are digits. -/
theorem isDigit_of_readDigits {ds : List Char} {acc : Nat}
    (h : readDigits 10 digitValue? acc ds = some n) : ∀ c ∈ ds, c.isDigit = true := by
  induction ds generalizing acc with
  | nil => simp
  | cons c rest ih =>
      obtain ⟨d, hd, hrest⟩ := Option.bind_eq_some_iff.mp h
      have hc : c.isDigit = true := by
        apply Classical.byContradiction
        intro hc
        rw [digitValue?, if_neg hc] at hd
        cases hd
      intro e he
      rcases List.mem_cons.mp he with rfl | he
      · exact hc
      · exact ih hrest e he

/-- **A row of digits** is read as the number that it denotes; nothing else is read. -/
theorem decimal?_eq_some_iff :
    decimal? cs = some n ↔
      cs ≠ [] ∧ (∀ c ∈ cs, c.isDigit = true) ∧ Nat.ofDigitChars 10 cs 0 = n := by
  unfold decimal? numeral?
  constructor
  · intro h
    split at h
    · cases h
    · rename_i hne
      have hdigits := isDigit_of_readDigits h
      rw [readDigits_eq_ofDigitChars hdigits] at h
      exact ⟨by simpa using hne, hdigits, Option.some.inj h⟩
  · rintro ⟨hne, hdigits, rfl⟩
    rw [if_neg (by simpa using hne), readDigits_eq_ofDigitChars hdigits]

theorem eq_dropPlus_or (cs : List Char) : cs = dropPlus cs ∨ cs = '+' :: dropPlus cs := by
  unfold dropPlus
  split
  · exact Or.inr rfl
  · exact Or.inl rfl

/-- Digits do not begin with a plus sign. -/
theorem dropPlus_of_isDigit (h : ∀ c ∈ cs, c.isDigit = true) : dropPlus cs = cs := by
  rcases eq_dropPlus_or cs with hcs | hcs
  · exact hcs.symm
  · have hplus := h '+' (by rw [hcs]; exact List.mem_cons_self)
    exact absurd hplus (by decide)

/-- **A bounded number** is read from its numerals and from nothing else. -/
theorem whole?_eq_some_iff : whole? bound cs = some n ↔ Writes cs n ∧ n ≤ bound := by
  rw [whole?, Option.filter_eq_some_iff, decimal?_eq_some_iff, decide_eq_true_eq]
  constructor
  · rintro ⟨⟨hne, hdigits, hvalue⟩, hbound⟩
    exact ⟨⟨dropPlus cs, eq_dropPlus_or cs, hne, hdigits, hvalue⟩, hbound⟩
  · rintro ⟨⟨digits, hcs, hne, hdigits, hvalue⟩, hbound⟩
    have hdrop : dropPlus cs = digits := by
      rcases hcs with rfl | rfl
      · exact dropPlus_of_isDigit hdigits
      · rfl
    rw [hdrop]
    exact ⟨⟨hne, hdigits, hvalue⟩, hbound⟩

end CodeFence.Text
