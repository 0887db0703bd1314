import CodeFence.Proofs.SpacedWords

/-!
# Cutting a text into words again

A text is cut only at blanks that no backslash escapes and no quoted span holds,
and only these are lost.  Every word but the last leaves nothing open.  The last
one may, but there is nothing behind it.  So when the words are put together again
with blanks between them, whichever and however many, they are cut as before.

* `Place`, `withoutGaps` — a reader that goes from character to character, and
  what it keeps of a text;
* `flatten_wordsAfter` — the words are what it keeps;
* `Settled`, `settled_wordsAfter` — only the last word may leave something open;
* `Gap`, `spread` — words with blanks between them;
* `wordChars_exact` — what the words of a text are.
-/

namespace CodeFence.InfoString

variable {done words : List (List Char)} {current cs : List Char} {quote quote' : Option Char}

/-! ## What is lost -/

/-- Where a reader stands: in the span that a quote opened, or in none, and right
behind a backslash that escapes the next character, or not. -/
structure Place where
  quote : Option Char := none
  escaped : Bool := false

namespace Place

/-- The place behind one more character.  A backslash escapes the character behind
it, also in a quoted span; a span ends at a quote of the kind that opened it. -/
def next (p : Place) (c : Char) : Place :=
  if p.escaped then { p with escaped := false }
  else if c = '\\' then { p with escaped := true }
  else
    match p.quote with
    | some q => if c = q then { p with quote := none } else p
    | none => if isQuote c then { p with quote := some c } else p

/-- A blank that is neither escaped nor in a quoted span. -/
def isGap (p : Place) (c : Char) : Bool :=
  !p.escaped && p.quote.isNone && Text.isBlank c

end Place

/-- A text without the blanks that are neither escaped nor in a quoted span. -/
def withoutGaps (p : Place) : List Char → List Char
  | [] => []
  | c :: rest =>
    if p.isGap c then withoutGaps (p.next c) rest else c :: withoutGaps (p.next c) rest

theorem flatten_endWord (done : List (List Char)) (current : List Char) :
    (endWord done current).reverse.flatten = done.reverse.flatten ++ current.reverse := by
  unfold endWord
  split
  · rename_i hempty
    obtain rfl : current = [] := by simpa using hempty
    simp
  · simp

/-- A quote that opens a span is no blank, and a blank opens no span; a backslash
is neither. -/
theorem ne_backslash_of_isQuote {c : Char} (h : isQuote c = true) : c ≠ '\\' := by
  rintro rfl
  exact absurd h (by decide)

theorem ne_backslash_of_isBlank {c : Char} (h : Text.isBlank c = true) : c ≠ '\\' := by
  rintro rfl
  exact absurd h (by decide)

theorem isBlank_of_isQuote {c : Char} (h : isQuote c = true) : Text.isBlank c = false := by
  rw [isQuote, Bool.or_eq_true, decide_eq_true_eq, decide_eq_true_eq] at h
  rcases h with rfl | rfl <;> decide

/-- A character that does not escape the next one is no backslash, unless it is the
last one. -/
theorem eq_nil_or_ne_backslash {c : Char} {rest : List Char}
    (h : ∀ d more, c = '\\' → rest = d :: more → False) : rest = [] ∨ c ≠ '\\' := by
  cases rest with
  | nil => exact Or.inl rfl
  | cons d more => exact Or.inr fun hc => h d more hc rfl

/-- What is no gap is kept. -/
theorem withoutGaps_of_not_gap {p : Place} {c : Char} (h : p.isGap c = false)
    (rest : List Char) : withoutGaps p (c :: rest) = c :: withoutGaps (p.next c) rest :=
  if_neg (by rw [h]; exact Bool.false_ne_true)

/-- **The words are what is kept.** -/
theorem flatten_wordsAfter (done : List (List Char)) (current : List Char)
    (quote : Option Char) (cs : List Char) :
    (wordsAfter done current quote cs).flatten =
      done.reverse.flatten ++ current.reverse ++ withoutGaps ⟨quote, false⟩ cs := by
  fun_induction wordsAfter done current quote cs with
  | case1 done current quote => simp [withoutGaps, flatten_endWord]
  | case2 done current quote c rest ih =>
      have hblank : Text.isBlank '\\' = false := by decide
      simp [withoutGaps, Place.isGap, Place.next, hblank, ih]
  | case3 done current c rest hpair q ih =>
      have hkept : withoutGaps ⟨some q, false⟩ (c :: rest) =
          c :: withoutGaps ⟨if c = q then none else some q, false⟩ rest := by
        rw [withoutGaps_of_not_gap rfl]
        rcases eq_nil_or_ne_backslash hpair with rfl | hc
        · rfl
        · by_cases hclose : c = q
          · subst hclose
            simp [Place.next, hc]
          · simp [Place.next, hc, hclose]
      simp [ih, hkept]
  | case4 done current c rest hpair hquote ih =>
      have hc := ne_backslash_of_isQuote hquote
      have hblank := isBlank_of_isQuote hquote
      simp [ih, withoutGaps, Place.isGap, Place.next, hc, hquote, hblank]
  | case5 done current c rest hpair hquote hblank ih =>
      have hc := ne_backslash_of_isBlank hblank
      simp [ih, flatten_endWord, withoutGaps, Place.isGap, Place.next, hc, hquote, hblank]
  | case6 done current c rest hpair hquote hblank ih =>
      have hkept : withoutGaps ⟨none, false⟩ (c :: rest) =
          c :: withoutGaps ⟨none, false⟩ rest := by
        rw [withoutGaps_of_not_gap (by simp [Place.isGap, hblank])]
        rcases eq_nil_or_ne_backslash hpair with rfl | hc
        · rfl
        · simp [Place.next, hc, hquote]
      simp [ih, hkept]

/-! ## What words leave open -/

theorem endWord_append (done early : List (List Char)) (current : List Char) :
    endWord (done ++ early) current = endWord done current ++ early := by
  unfold endWord
  split <;> rfl

/-- What is done is not looked at again. -/
theorem wordsAfter_early (done early : List (List Char)) (current : List Char)
    (quote : Option Char) (cs : List Char) :
    wordsAfter (done ++ early) current quote cs =
      early.reverse ++ wordsAfter done current quote cs := by
  fun_induction wordsAfter done current quote cs with
  | case1 done current quote => simp [wordsAfter, endWord_append]
  | case2 done current quote c rest ih => simpa [wordsAfter] using ih
  | case3 done current c rest hpair q ih =>
      rw [wordsAfter]
      · exact ih
      · exact hpair
  | case4 done current c rest hpair hquote ih =>
      have hc := ne_backslash_of_isQuote hquote
      simpa [wordsAfter, hc, hquote] using ih
  | case5 done current c rest hpair hquote hblank ih =>
      have hc := ne_backslash_of_isBlank hblank
      simpa [wordsAfter, hc, hquote, hblank, endWord_append] using ih
  | case6 done current c rest hpair hquote hblank ih =>
      rw [wordsAfter]
      · simpa [hquote, hblank] using ih
      · exact hpair

/-- Words of which all but the last leave nothing open; the last one reads as one
word when nothing stands behind it. -/
def Settled : List (List Char) → Prop
  | [] => True
  | [w] => w ≠ [] ∧ wordChars w = [w]
  | w :: v :: rest => w ≠ [] ∧ quoteAfter none w = some none ∧ Settled (v :: rest)

/-- A word that is being read goes on behind the characters that were read. -/
theorem wordChars_append (h : quoteAfter none current.reverse = some quote)
    (cs : List Char) : wordChars (current.reverse ++ cs) = wordsAfter [] current quote cs := by
  rw [wordChars, wordsAfter_append h, List.reverse_reverse, List.append_nil]

/-- Characters that are not cut are one word. -/
theorem wordChars_reverse (hne : current ≠ [])
    (h : quoteAfter none current.reverse = some quote) :
    wordChars current.reverse = [current.reverse] := by
  have hword := wordChars_append h []
  rw [List.append_nil] at hword
  simp [hword, wordsAfter, endWord, hne]

theorem wordChars_of_quoteAfter {w : List Char} (hne : w ≠ [])
    (h : quoteAfter none w = some quote) : wordChars w = [w] := by
  have hword : wordChars w.reverse.reverse = [w.reverse.reverse] :=
    wordChars_reverse (by simpa using hne) (by rwa [List.reverse_reverse])
  rwa [List.reverse_reverse] at hword

/-- So it is if a lone backslash stands behind them. -/
theorem wordChars_backslash (h : quoteAfter none current.reverse = some quote) :
    wordChars ('\\' :: current).reverse = [('\\' :: current).reverse] := by
  have hblank : Text.isBlank '\\' = false := by decide
  have hquote : isQuote '\\' = false := by decide
  rw [List.reverse_cons, wordChars_append h]
  cases quote <;> simp [wordsAfter, endWord, hblank, hquote]

theorem Settled.cons {w : List Char} (hne : w ≠ []) (hw : quoteAfter none w = some none)
    (h : Settled words) : Settled (w :: words) := by
  cases words with
  | nil => exact ⟨hne, wordChars_of_quoteAfter hne hw⟩
  | cons v rest => exact ⟨hne, hw, h⟩

theorem quoteAfter_reverse_cons (h : quoteAfter none current.reverse = some quote) {c : Char}
    (hc : quoteAfter quote [c] = some quote') :
    quoteAfter none (c :: current).reverse = some quote' := by
  rw [List.reverse_cons, quoteAfter_append h, hc]

/-- A lone backslash at the end is part of the last word. -/
theorem settled_backslash (h : quoteAfter none current.reverse = some quote) :
    ∃ more, wordsAfter done ('\\' :: current) quote' [] = done.reverse ++ more ∧
      Settled more := by
  refine ⟨[('\\' :: current).reverse], by simp [wordsAfter, endWord], by simp, ?_⟩
  exact wordChars_backslash h

/-- **Only the last word may leave something open.** -/
theorem settled_wordsAfter (h : quoteAfter none current.reverse = some quote) :
    ∃ more, wordsAfter done current quote cs = done.reverse ++ more ∧ Settled more := by
  fun_induction wordsAfter done current quote cs with
  | case1 done current quote =>
      by_cases hempty : current = []
      · exact ⟨[], by simp [endWord, hempty], trivial⟩
      · refine ⟨[current.reverse], by simp [endWord, hempty], by simpa using hempty, ?_⟩
        exact wordChars_reverse hempty h
  | case2 done current quote c rest ih =>
      apply ih
      have hpair : (c :: '\\' :: current).reverse = current.reverse ++ ['\\', c] := by simp
      rw [hpair, quoteAfter_append h]
      cases quote <;> rfl
  | case3 done current c rest hpair q ih =>
      by_cases hc : c = '\\'
      · subst hc
        obtain rfl : rest = [] := by simpa using eq_nil_or_ne_backslash hpair
        exact settled_backslash h
      · exact ih (quoteAfter_reverse_cons h (by simp [quoteAfter, hc]))
  | case4 done current c rest hpair hquote ih =>
      have hc := ne_backslash_of_isQuote hquote
      exact ih (quoteAfter_reverse_cons h (by simp [quoteAfter, hc, hquote]))
  | case5 done current c rest hpair hquote hblank ih =>
      obtain ⟨more, hmore, hsettled⟩ := ih rfl
      by_cases hempty : current = []
      · exact ⟨more, by simpa [endWord, hempty] using hmore, hsettled⟩
      · refine ⟨current.reverse :: more, by simpa [endWord, hempty] using hmore, ?_⟩
        exact hsettled.cons (by simpa using hempty) h
  | case6 done current c rest hpair hquote hblank ih =>
      by_cases hc : c = '\\'
      · subst hc
        obtain rfl : rest = [] := by simpa using eq_nil_or_ne_backslash hpair
        exact settled_backslash h
      · exact ih (quoteAfter_reverse_cons h (by simp [quoteAfter, hc, hquote, hblank]))

theorem settled_wordChars (cs : List Char) : Settled (wordChars cs) := by
  obtain ⟨more, hmore, hsettled⟩ :
      ∃ more, wordsAfter [] [] none cs = [].reverse ++ more ∧ Settled more :=
    settled_wordsAfter rfl
  rw [wordChars, hmore]
  exact hsettled

theorem Settled.ne_nil (h : Settled words) : ∀ w ∈ words, w ≠ [] := by
  induction words with
  | nil => simp
  | cons w rest ih =>
      have hw : w ≠ [] := by cases rest <;> exact h.1
      have hrest : Settled rest := by
        cases rest with
        | nil => trivial
        | cons v rest => exact h.2.2
      intro u hu
      rcases List.mem_cons.mp hu with rfl | hu
      · exact hw
      · exact ih hrest u hu

/-! ## Words put together again -/

/-- Blanks that keep two words apart: at least one. -/
structure Gap extends Blanks where
  ne_nil : chars ≠ []

/-- Words with blanks between them; the first gap stands behind the first word. -/
def spread (gaps : Nat → Gap) : List (List Char) → List Char
  | [] => []
  | [w] => w
  | w :: v :: rest => w ++ (gaps 0).chars ++ spread (fun i => gaps (i + 1)) (v :: rest)

/-- **Words that are put together** are cut as they were. -/
theorem wordsAfter_spread (h : Settled words) (gaps : Nat → Gap) :
    wordsAfter done [] none (spread gaps words) = done.reverse ++ words := by
  induction words generalizing done gaps with
  | nil => simp [spread, wordsAfter, endWord]
  | cons w rest ih =>
      cases rest with
      | nil =>
          have hearly := wordsAfter_early [] done [] none w
          rw [List.nil_append] at hearly
          rw [spread, hearly, ← wordChars, h.2]
      | cons v rest =>
          obtain ⟨hne, hw, hrest⟩ := h
          have hend : endWord done w.reverse = w :: done := by simp [endWord, hne]
          rw [spread, List.append_assoc, wordsAfter_append hw, List.append_nil,
            wordsAfter_blanks (gaps 0).blank (Or.inl (gaps 0).ne_nil), hend, ih hrest]
          simp

/-- **The words of an info string.**  None of them is empty.  Put together as they
are, they make up the info string without the blanks that are neither escaped nor
in a quoted span.  With blanks in front and gaps between them, whichever these are,
they are cut as before. -/
theorem wordChars_exact (info : String) :
    let words := wordChars info.toList
    (∀ w ∈ words, w ≠ []) ∧ words.flatten = withoutGaps {} info.toList ∧
      ∀ (lead : Blanks) (gaps : Nat → Gap),
        wordChars (lead.chars ++ spread gaps words) = words := by
  intro words
  have hsettled : Settled words := settled_wordChars info.toList
  refine ⟨hsettled.ne_nil, ?_, ?_⟩
  · exact flatten_wordsAfter [] [] none info.toList
  · intro lead gaps
    rw [wordChars, wordsAfter_blanks lead.blank (Or.inr rfl), endWord_nil,
      wordsAfter_spread hsettled gaps]
    rfl

end CodeFence.InfoString
