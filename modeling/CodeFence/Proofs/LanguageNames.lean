import CodeFence.Block.Language
import Mathlib.Data.List.DropRight

/-!
# Canonical names

A text in lower case stays as it is when it is lowered again: what a letter is
lowered to has no lower case of its own, and only a capital sigma looks at its
neighbours.  Lowering a letter never gives a blank, so it leaves none at the ends of
a text, and no full name of a language is an abbreviation.  So a canonical name is
its own canonical name, and it is never blank.

* `target?_mapRuns` — a code point that was lowered has no other lower case;
* `IsLower` — a character that stays as it is, whatever stands around it;
* `isLower_of_mem_lowerAfter`, `lowerAfter_of_isLower` — texts in lower case;
* `isBlank_of_mem_lowerChar` — letters are lowered to letters;
* `trim_lower_trim` — lowering leaves no blank at the ends;
* `trim_trim`, `trim_eq_nil_iff` — what trimming leaves;
* `IsCanonical`, `isCanonical_canonicalLanguage` — canonical names.
-/

namespace CodeFence

namespace Text

variable {c d : Char} {before cs : List Char}

/-! ## Lower case -/

/-- The first code point that a run leads to. -/
def Run.imageFirst (r : Run) : Nat := (r.first + r.shift).toNat

/-- The last code point that a run leads to. -/
def Run.imageLast (r : Run) : Nat := (r.last + r.shift).toNat

/-- Whether no member of the second run is the image of a member of the first: they
lie apart, or the images stand at every other place and the members between them. -/
def Run.misses (r r' : Run) : Bool :=
  Nat.blt r.imageLast r'.first || Nat.blt r'.last r.imageFirst ||
    ((Nat.beq r.step 2 || Nat.beq r.first r.last) && Nat.beq r'.step 2 &&
      Nat.beq ((r.imageFirst + r'.first) % 2) 1)

/-- All code points that are not their own lower case.  The dotted `İ`, which becomes
two characters, is a run by itself. -/
def capitalRuns : List Run :=
  ⟨0x130, 0x130, 1, 0⟩ :: lowerRuns

theorem capitalRuns_missed :
    (lowerRuns.all fun r =>
      decide (0 ≤ r.first + r.shift) && capitalRuns.all r.misses) = true := by
  decide +kernel

theorem Run.target?_eq_some_iff {r : Run} {n m : Nat} :
    r.target? n = some m ↔
      (r.first ≤ n ∧ n ≤ r.last ∧ (n - r.first) % r.step = 0) ∧ (n + r.shift).toNat = m := by
  rw [target?, Option.ite_none_right_eq_some, Option.some.injEq]

/-- What a run leads to is no member of a run that it misses. -/
theorem Run.target?_eq_none {r r' : Run} (hpos : 0 ≤ r.first + r.shift)
    (hmiss : r.misses r' = true) {n m : Nat} (hn : r.target? n = some m) :
    r'.target? m = none := by
  obtain ⟨⟨hfirst, hlast, hplace⟩, hm⟩ := target?_eq_some_iff.mp hn
  apply if_neg
  rintro ⟨hfirst', hlast', hplace'⟩
  simp only [misses, imageFirst, imageLast, Bool.or_eq_true, Bool.and_eq_true, Nat.blt_eq,
    Nat.beq_eq] at hmiss
  obtain (hbefore | hbehind) | ⟨⟨hstep, hstep'⟩, hturn⟩ := hmiss
  · omega
  · omega
  · have heven : (n - r.first) % 2 = 0 := by
      rcases hstep with hstep | hsingle
      · rwa [hstep] at hplace
      · omega
    rw [hstep'] at hplace'
    omega

/-- **A code point that was lowered has no other lower case.** -/
theorem target?_mapRuns {n : Nat} (hn : n ≠ 0x130) {r : Run} (hr : r ∈ capitalRuns) :
    r.target? (mapRuns lowerRuns n) = none := by
  unfold mapRuns
  cases hrun : lowerRuns.findSome? (Run.target? · n) with
  | none =>
      rcases List.mem_cons.mp hr with rfl | hr
      · exact if_neg (by simp only [Option.getD_none]; omega)
      · exact List.findSome?_eq_none_iff.mp hrun r hr
  | some m =>
      obtain ⟨r', hr', hm⟩ := List.exists_of_findSome?_eq_some hrun
      have hmissed := List.all_eq_true.mp capitalRuns_missed r' hr'
      rw [Bool.and_eq_true, decide_eq_true_eq, List.all_eq_true] at hmissed
      exact Run.target?_eq_none hmissed.1 (hmissed.2 r hr) hm

/-- A character that is its own lower case, whatever stands around it. -/
def IsLower (c : Char) : Prop :=
  c ≠ 'Σ' ∧ lowerChar c = [c]

instance : DecidablePred IsLower := fun c => by
  unfold IsLower
  infer_instance

theorem isLower_of_target?_eq_none (h : ∀ r ∈ capitalRuns, r.target? c.toNat = none) :
    IsLower c := by
  have hcovered : ∀ d : Char, (capitalRuns.any fun r => (r.target? d.toNat).isSome) = true →
      c ≠ d := by
    rintro d hd rfl
    obtain ⟨r, hr, hsome⟩ := List.any_eq_true.mp hd
    rw [h r hr] at hsome
    cases hsome
  refine ⟨hcovered 'Σ' (by decide +kernel), ?_⟩
  have hnone : lowerRuns.findSome? (Run.target? · c.toNat) = none :=
    List.findSome?_eq_none_iff.mpr fun r hr => h r (List.mem_cons_of_mem _ hr)
  rw [lowerChar, if_neg (hcovered 'İ' (by decide +kernel)), mapRuns, hnone, Option.getD_none,
    Char.ofNat_toNat]

/-- The small letters of the alphabet are in lower case. -/
theorem isLower_of_small (hlow : 'a'.toNat ≤ c.toNat) (hhigh : c.toNat ≤ 'z'.toNat) :
    IsLower c := by
  have hapart : ∀ r ∈ capitalRuns, r.last < 'a'.toNat ∨ 'z'.toNat < r.first := by
    decide +kernel
  refine isLower_of_target?_eq_none fun r hr => if_neg ?_
  rintro ⟨hfirst, hlast, -⟩
  rcases hapart r hr with h | h <;> omega

/-- The number of a character that is made of a number is that number, or zero. -/
theorem toNat_ofNat_cases (n : Nat) :
    (Char.ofNat n).toNat = n ∨ (Char.ofNat n).toNat = 0 := by
  unfold Char.ofNat
  by_cases hvalid : n.isValidChar
  · rw [dif_pos hvalid]
    exact Or.inl rfl
  · rw [dif_neg hvalid]
    exact Or.inr rfl

/-- What a character is lowered to is in lower case. -/
theorem isLower_of_mem_lowerChar (hd : d ∈ lowerChar c) : IsLower d := by
  unfold lowerChar at hd
  split at hd
  · simp only [List.mem_cons, List.not_mem_nil, or_false] at hd
    rcases hd with rfl | rfl <;> decide
  · rename_i hdotted
    obtain rfl := List.mem_singleton.mp hd
    have hn : c.toNat ≠ 0x130 := fun h => hdotted (Char.toNat_inj.mp h)
    refine isLower_of_target?_eq_none fun r hr => ?_
    rcases toNat_ofNat_cases (mapRuns lowerRuns c.toNat) with h | h
    · rw [h]
      exact target?_mapRuns hn hr
    · have hzero : ∀ r ∈ capitalRuns, r.target? 0 = none := by decide +kernel
      rw [h]
      exact hzero r hr

/-- What a character is lowered to between the given texts, the one before it latest
first. -/
def lowerImage (before : List Char) (c : Char) (rest : List Char) : List Char :=
  if c = 'Σ' then
    if meetsCased before && !meetsCased rest then ['ς'] else ['σ']
  else lowerChar c

theorem lowerAfter_cons (before : List Char) (c : Char) (rest : List Char) :
    lowerAfter before (c :: rest) = lowerImage before c rest ++ lowerAfter (c :: before) rest :=
  rfl

/-- A sigma is lowered to a sigma, any other character as if it stood alone. -/
theorem lowerImage_cases (before : List Char) (c : Char) (rest : List Char) :
    lowerImage before c rest = ['ς'] ∨ lowerImage before c rest = ['σ'] ∨
      lowerImage before c rest = lowerChar c := by
  unfold lowerImage
  split
  · split
    · exact Or.inl rfl
    · exact Or.inr (Or.inl rfl)
  · exact Or.inr (Or.inr rfl)

theorem isLower_of_mem_lowerAfter (hd : d ∈ lowerAfter before cs) : IsLower d := by
  induction cs generalizing before with
  | nil => cases hd
  | cons c rest ih =>
      rw [lowerAfter_cons, List.mem_append] at hd
      rcases hd with hd | hd
      · rcases lowerImage_cases before c rest with h | h | h <;> rw [h] at hd
        · rw [List.mem_singleton.mp hd]
          decide
        · rw [List.mem_singleton.mp hd]
          decide
        · exact isLower_of_mem_lowerChar hd
      · exact ih hd

theorem lowerAfter_of_isLower (h : ∀ c ∈ cs, IsLower c) : lowerAfter before cs = cs := by
  induction cs generalizing before with
  | nil => rfl
  | cons c rest ih =>
      obtain ⟨hsigma, hself⟩ := h c List.mem_cons_self
      rw [lowerAfter_cons, lowerImage, if_neg hsigma, hself,
        ih fun d hd => h d (List.mem_cons_of_mem c hd), List.singleton_append]

/-! ## Blanks -/

/-- No run of the lower case leads to a blank. -/
theorem lowerRuns_avoid_blanks :
    ∀ r ∈ lowerRuns, ∀ b ∈ blankRanges,
      (r.last + r.shift < (b.1 : Int)) ∨ ((b.2 : Int) < r.first + r.shift) := by
  decide +kernel

/-- What a letter is lowered to is not blank, unless the letter is. -/
theorem within_mapRuns_lowerRuns {n : Nat} (hn : within blankRanges n = false) :
    within blankRanges (mapRuns lowerRuns n) = false := by
  unfold mapRuns
  cases hrun : lowerRuns.findSome? (Run.target? · n) with
  | none => exact hn
  | some m =>
      obtain ⟨r, hr, hm⟩ := List.exists_of_findSome?_eq_some hrun
      obtain ⟨⟨hfirst, hlast, -⟩, hm⟩ := Run.target?_eq_some_iff.mp hm
      rw [← Bool.not_eq_true, Option.getD_some, within_iff]
      rintro ⟨b, hb, hlow, hhigh⟩
      have hpositive : ∀ b ∈ blankRanges, 0 < b.1 := by decide
      have hb' := hpositive b hb
      rcases lowerRuns_avoid_blanks r hr b hb with h | h <;> omega

/-- A letter is lowered to letters. -/
theorem isBlank_of_mem_lowerChar (hc : isBlank c = false) (hd : d ∈ lowerChar c) :
    isBlank d = false := by
  unfold lowerChar at hd
  split at hd
  · simp only [List.mem_cons, List.not_mem_nil, or_false] at hd
    rcases hd with rfl | rfl <;> decide
  · obtain rfl := List.mem_singleton.mp hd
    unfold isBlank
    rcases toNat_ofNat_cases (mapRuns lowerRuns c.toNat) with h | h
    · rw [h]
      exact within_mapRuns_lowerRuns hc
    · rw [h]
      decide

theorem lowerChar_ne_nil (c : Char) : lowerChar c ≠ [] := by
  unfold lowerChar
  split <;> simp

theorem isBlank_of_mem_lowerImage {rest : List Char} (hc : isBlank c = false)
    (hd : d ∈ lowerImage before c rest) : isBlank d = false := by
  rcases lowerImage_cases before c rest with h | h | h <;> rw [h] at hd
  · rw [List.mem_singleton.mp hd]
    decide
  · rw [List.mem_singleton.mp hd]
    decide
  · exact isBlank_of_mem_lowerChar hc hd

theorem lowerImage_ne_nil (before : List Char) (c : Char) (rest : List Char) :
    lowerImage before c rest ≠ [] := by
  rcases lowerImage_cases before c rest with h | h | h <;> rw [h]
  · exact List.cons_ne_nil _ _
  · exact List.cons_ne_nil _ _
  · exact lowerChar_ne_nil c

/-- A text that begins with a letter is lowered to one that begins with a letter. -/
theorem isBlank_head_lower (hc : isBlank c = false) (rest : List Char) :
    ∃ d ds, lower (c :: rest) = d :: ds ∧ isBlank d = false := by
  obtain ⟨d, ds, himage⟩ := List.exists_cons_of_ne_nil (lowerImage_ne_nil [] c rest)
  have hd : isBlank d = false :=
    isBlank_of_mem_lowerImage hc (by rw [himage]; exact List.mem_cons_self)
  exact ⟨d, ds ++ lowerAfter [c] rest, by rw [lower, lowerAfter_cons, himage, List.cons_append], hd⟩

/-- A text that ends with a letter is lowered to one that ends with a letter. -/
theorem isBlank_last_lowerAfter (hc : isBlank c = false) (before front : List Char) :
    ∃ front' d, lowerAfter before (front ++ [c]) = front' ++ [d] ∧ isBlank d = false := by
  induction front generalizing before with
  | nil =>
      have hne := lowerImage_ne_nil before c []
      have hsplit := List.dropLast_append_getLast hne
      have hlast := isBlank_of_mem_lowerImage hc (List.getLast_mem hne)
      refine ⟨(lowerImage before c []).dropLast, (lowerImage before c []).getLast hne, ?_, hlast⟩
      rw [List.nil_append, lowerAfter_cons, lowerAfter, List.append_nil, hsplit]
  | cons b rest ih =>
      obtain ⟨front', d, hlower, hd⟩ := ih (b :: before)
      refine ⟨lowerImage before b (rest ++ [c]) ++ front', d, ?_, hd⟩
      rw [List.cons_append, lowerAfter_cons, hlower, List.append_assoc]

/-! ## Ends of a text -/

/-- Trimmed text is empty or begins with a letter. -/
theorem isBlank_head_trim {rest : List Char} (h : trim cs = c :: rest) :
    isBlank c = false := by
  unfold trim trimEnd at h
  cases hstart : trimStart cs with
  | nil => simp [hstart] at h
  | cons d ds =>
      have hd : isBlank d = false := by
        have hhead := List.head?_dropWhile_not isBlank cs
        rw [← trimStart, hstart] at hhead
        exact hhead
      have hfirst : ((d :: ds).reverse.dropWhile isBlank).reverse.head? = some d := by
        rw [List.reverse_cons, List.dropWhile_append]
        split <;> simp [hd]
      rw [← hstart, h] at hfirst
      obtain rfl : c = d := Option.some.inj hfirst
      exact hd

/-- A text that begins and ends with a letter stays as it is when it is trimmed. -/
theorem trim_of_ends {front rest : List Char} (hhead : cs = c :: rest) (hc : isBlank c = false)
    (hlast : cs = front ++ [d]) (hd : isBlank d = false) : trim cs = cs := by
  have hstart : trimStart cs = cs := by
    rw [hhead, trimStart, List.dropWhile_cons_of_neg (by simp [hc])]
  rw [trim, hstart, hlast, trimEnd, List.reverse_append, List.reverse_singleton,
    List.singleton_append, List.dropWhile_cons_of_neg (by simp [hd]), List.reverse_cons,
    List.reverse_reverse]

/-- Trimmed text does not end with a blank. -/
theorem isBlank_last_trim {front : List Char} (h : trim cs = front ++ [c]) :
    isBlank c = false := by
  have hdropped : (trimStart cs).rdropWhile isBlank = front ++ [c] := h
  have hlast := List.rdropWhile_last_not isBlank (trimStart cs) (by simp [hdropped])
  simpa [hdropped] using hlast

/-- Trimmed text that is lowered needs no trimming. -/
theorem trim_lower_trim (cs : List Char) : trim (lower (trim cs)) = lower (trim cs) := by
  cases htrim : trim cs with
  | nil => rfl
  | cons c rest =>
      have hc : isBlank c = false := isBlank_head_trim htrim
      obtain ⟨d, ds, hhead, hd⟩ := isBlank_head_lower hc rest
      have hsplit := List.dropLast_append_getLast (List.cons_ne_nil c rest)
      have hb := isBlank_last_trim (htrim.trans hsplit.symm)
      obtain ⟨front, e, hlast, he⟩ := isBlank_last_lowerAfter hb [] (c :: rest).dropLast
      rw [hsplit] at hlast
      exact trim_of_ends hhead hd hlast he

/-- Trimmed text needs no trimming. -/
theorem trim_trim (cs : List Char) : trim (trim cs) = trim cs := by
  cases htrim : trim cs with
  | nil => rfl
  | cons c rest =>
      have hsplit := List.dropLast_append_getLast (List.cons_ne_nil c rest)
      exact trim_of_ends rfl (isBlank_head_trim htrim) hsplit.symm
        (isBlank_last_trim (htrim.trans hsplit.symm))

/-- Only blanks are trimmed to nothing. -/
theorem trim_eq_nil_iff : trim cs = [] ↔ cs.all isBlank = true := by
  rw [trim, trimEnd, List.reverse_eq_nil_iff, List.dropWhile_eq_nil_iff, List.all_eq_true]
  constructor
  · intro h
    cases hstart : trimStart cs with
    | nil => exact List.dropWhile_eq_nil_iff.mp hstart
    | cons c rest =>
        have hhead := List.head?_dropWhile_not isBlank cs
        rw [← trimStart, hstart] at hhead
        have hletter : isBlank c = false := hhead
        have hblank := h c (by simp [hstart])
        rw [hletter] at hblank
        cases hblank
  · intro h c hc
    exact h c ((List.dropWhile_sublist isBlank).mem (List.mem_reverse.mp hc))

theorem trimmed_trimmed (s : String) : trimmed (trimmed s) = trimmed s := by
  rw [trimmed, trimmed, String.toList_ofList, trim_trim]

theorem trimmed_eq_empty_iff {s : String} : trimmed s = "" ↔ isBlankText s = true := by
  rw [trimmed, String.ofList_eq_empty_iff, trim_eq_nil_iff, isBlankText]

end Text

/-! ## Canonical names -/

/-- A canonical name is in lower case, has no blanks at its ends, and is neither empty
nor an abbreviation. -/
structure IsCanonical (name : String) : Prop where
  ne_empty : name ≠ ""
  trimmed : Text.trimmed name = name
  isLower : ∀ c ∈ name.toList, Text.IsLower c
  unabbreviated : languageAbbreviations.lookup name = none

/-- Whether a name is written in small letters, and is no abbreviation. -/
def isFullName (name : String) : Bool :=
  name ≠ "" && Text.trimmed name = name && (languageAbbreviations.lookup name).isNone &&
    name.toList.all fun c => decide ('a'.toNat ≤ c.toNat) && decide (c.toNat ≤ 'z'.toNat)

theorem isCanonical_of_isFullName {name : String} (h : isFullName name = true) :
    IsCanonical name := by
  simp only [isFullName, Bool.and_eq_true, decide_eq_true_eq, Option.isNone_iff_eq_none,
    List.all_eq_true] at h
  obtain ⟨⟨⟨hne, htrimmed⟩, hnone⟩, hsmall⟩ := h
  refine ⟨hne, htrimmed, fun c hc => ?_, hnone⟩
  exact Text.isLower_of_small (hsmall c hc).1 (hsmall c hc).2

/-- Plain text and the full names are written in small letters, and no full name is an
abbreviation of another. -/
theorem isCanonical_of_mem_full {full : String}
    (hfull : full ∈ plainText :: languageAbbreviations.map Prod.snd) : IsCanonical full := by
  have hnames : ∀ full ∈ plainText :: languageAbbreviations.map Prod.snd,
      isFullName full = true := by
    decide
  exact isCanonical_of_isFullName (hnames full hfull)

/-- **What is made canonical is canonical.** -/
theorem isCanonical_canonicalLanguage (name : String) : IsCanonical (canonicalLanguage name) := by
  unfold canonicalLanguage
  dsimp only
  split
  · exact isCanonical_of_mem_full List.mem_cons_self
  · rename_i hne
    cases hlookup : languageAbbreviations.lookup
        (String.ofList (Text.lower (Text.trim name.toList))) with
    | some full =>
        obtain ⟨front, back, hsplit, -⟩ := List.lookup_eq_some_iff.mp hlookup
        exact isCanonical_of_mem_full (by simp [hsplit])
    | none =>
        refine ⟨hne, ?_, fun c hc => ?_, hlookup⟩
        · rw [Option.getD_none, Text.trimmed, String.toList_ofList, Text.trim_lower_trim]
        · rw [Option.getD_none, String.toList_ofList] at hc
          exact Text.isLower_of_mem_lowerAfter hc

theorem IsCanonical.trim_eq {name : String} (h : IsCanonical name) :
    Text.trim name.toList = name.toList := by
  rw [← String.ofList_inj, String.ofList_toList]
  exact h.trimmed

/-- A canonical name is its own canonical form. -/
theorem IsCanonical.canonicalLanguage_eq {name : String} (h : IsCanonical name) :
    canonicalLanguage name = name := by
  have hlowered : String.ofList (Text.lower (Text.trim name.toList)) = name := by
    rw [h.trim_eq, Text.lower, Text.lowerAfter_of_isLower h.isLower, String.ofList_toList]
  rw [canonicalLanguage, hlowered, if_neg h.ne_empty, h.unabbreviated, Option.getD_none]

/-- A canonical name is not blank: it would be empty without its blanks. -/
theorem IsCanonical.not_blank {name : String} (h : IsCanonical name) :
    Text.isBlankText name = false := by
  cases hname : name.toList with
  | nil => exact absurd (String.toList_eq_nil_iff.mp hname) h.ne_empty
  | cons c rest =>
      have hc : Text.isBlank c = false := Text.isBlank_head_trim (h.trim_eq.trans hname)
      rw [Text.isBlankText, hname, List.all_cons, hc, Bool.false_and]

theorem isBlankText_canonicalLanguage (name : String) :
    Text.isBlankText (canonicalLanguage name) = false :=
  (isCanonical_canonicalLanguage name).not_blank

end CodeFence
