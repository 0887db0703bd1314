import CodeFence.Block.Words

/-!
# Words with blanks between them

A row of characters is cut at its blanks, but not inside a quoted span nor
behind a backslash.  So a word is safe from whatever follows it if it leaves no
span open and no backslash waiting; words like that, with blanks between them,
are read one by one.

* `quoteAfter` — the span that characters leave open, unless they are cut;
* `wordsAfter_append` — characters that are not cut go into one word;
* `CompleteWord`, `SpacedWord`, `layOut` — complete words in a text;
* `wordChars_layOut` — the words of such a text are the words that it was made of.
-/

namespace CodeFence.InfoString

/-- The span that some characters leave open behind the span that `quote`
opened.  There is no answer if a blank cuts them, or if a backslash at their
end takes along the character behind them. -/
def quoteAfter : Option Char → List Char → Option (Option Char)
  | quote, [] => some quote
  | _, ['\\'] => none
  | quote, '\\' :: _ :: rest => quoteAfter quote rest
  | some q, c :: rest => quoteAfter (if c = q then none else some q) rest
  | none, c :: rest =>
    if isQuote c then quoteAfter (some c) rest
    else if Text.isBlank c then none
    else quoteAfter none rest

variable {done : List (List Char)} {current cs rest : List Char} {quote quote' : Option Char}

/-- A character is no backslash if neither alone nor with another one behind it
it reads as an escape. -/
theorem ne_backslash {c : Char} (hlone : c = '\\' → cs = [] → False)
    (hpair : ∀ d more, c = '\\' → cs = d :: more → False) : c ≠ '\\' := fun hc =>
  match cs, hlone, hpair with
  | [], hlone, _ => hlone hc rfl
  | d :: more, _, hpair => hpair d more hc rfl

/-- What stands behind some characters goes on from the span that they leave open. -/
theorem quoteAfter_append (h : quoteAfter quote cs = some quote') (more : List Char) :
    quoteAfter quote (cs ++ more) = quoteAfter quote' more := by
  fun_induction quoteAfter quote cs with
  | case1 =>
      cases h
      rfl
  | case2 => cases h
  | case3 quote c rest ih => simpa [quoteAfter] using ih h
  | case4 q c rest hlone hpair ih =>
      have hc := ne_backslash hlone hpair
      simpa [quoteAfter, hc] using ih h
  | case5 c rest hlone hpair hquote ih =>
      have hc := ne_backslash hlone hpair
      simpa [quoteAfter, hc, hquote] using ih h
  | case6 => cases h
  | case7 c rest hlone hpair hquote hblank ih =>
      have hc := ne_backslash hlone hpair
      simpa [quoteAfter, hc, hquote, hblank] using ih h

/-- **Characters that are not cut** go into the word that is being read. -/
theorem wordsAfter_append (h : quoteAfter quote cs = some quote') :
    wordsAfter done current quote (cs ++ rest) =
      wordsAfter done (cs.reverse ++ current) quote' rest := by
  fun_induction quoteAfter quote cs generalizing current with
  | case1 =>
      cases h
      rfl
  | case2 => cases h
  | case3 quote c more ih => simpa [wordsAfter] using ih h
  | case4 q c more hlone hpair ih =>
      have hc := ne_backslash hlone hpair
      simpa [wordsAfter, hc] using ih h
  | case5 c more hlone hpair hquote ih =>
      have hc := ne_backslash hlone hpair
      simpa [wordsAfter, hc, hquote] using ih h
  | case6 => cases h
  | case7 c more hlone hpair hquote hblank ih =>
      have hc := ne_backslash hlone hpair
      simpa [wordsAfter, hc, hquote, hblank] using ih h

/-! ## Blanks -/

theorem endWord_nil (done : List (List Char)) : endWord done [] = done := rfl

theorem wordsAfter_blank {c : Char} (hc : Text.isBlank c = true) :
    wordsAfter done current none (c :: rest) = wordsAfter (endWord done current) [] none rest := by
  have hbackslash : c ≠ '\\' := by
    rintro rfl
    exact absurd hc (by decide)
  have hquote : isQuote c = false := by
    rw [isQuote, Bool.or_eq_false_iff, decide_eq_false_iff_not, decide_eq_false_iff_not]
    constructor <;> rintro rfl <;> exact absurd hc (by decide)
  simp [wordsAfter, hbackslash, hquote, hc]

/-- Blanks end the word that is being read.  If there are none, it must not have begun. -/
theorem wordsAfter_blanks {blanks : List Char} (hblanks : ∀ c ∈ blanks, Text.isBlank c = true)
    (h : blanks ≠ [] ∨ current = []) :
    wordsAfter done current none (blanks ++ rest) =
      wordsAfter (endWord done current) [] none rest := by
  induction blanks generalizing done current with
  | nil =>
      obtain rfl : current = [] := by simpa using h
      rfl
  | cons c more ih =>
      rw [List.cons_append, wordsAfter_blank (hblanks c List.mem_cons_self),
        ih (fun d hd => hblanks d (List.mem_cons_of_mem c hd)) (Or.inr rfl), endWord_nil]

/-! ## Complete words -/

/-- A word that leaves nothing open, so that what follows it cannot change it. -/
structure CompleteWord where
  chars : List Char
  ne_nil : chars ≠ []
  complete : quoteAfter none chars = some none

/-- Any number of blanks. -/
structure Blanks where
  chars : List Char
  blank : ∀ c ∈ chars, Text.isBlank c = true

namespace Blanks

/-- No blanks at all. -/
def none : Blanks :=
  ⟨[], fun _ hc => absurd hc List.not_mem_nil⟩

/-- One space. -/
def space : Blanks :=
  ⟨[' '], fun c hc => by rw [List.mem_singleton.mp hc]; decide⟩

end Blanks

/-- A complete word behind at least one blank. -/
structure SpacedWord where
  gap : Blanks
  gap_ne_nil : gap.chars ≠ []
  word : CompleteWord

/-- A word with the blanks in front of it. -/
def SpacedWord.chars (w : SpacedWord) : List Char :=
  w.gap.chars ++ w.word.chars

/-- The text of a first word and further ones, with blanks around it all. -/
def layOut (lead : Blanks) (first : CompleteWord) (more : List SpacedWord) (trail : Blanks) :
    String :=
  String.ofList (lead.chars ++ first.chars ++ more.flatMap SpacedWord.chars ++ trail.chars)

/-- Words with blanks between them are read behind a word that has begun. -/
theorem wordsAfter_spaced (more : List SpacedWord) (trail : Blanks) (hcurrent : current ≠ []) :
    wordsAfter done current none (more.flatMap SpacedWord.chars ++ trail.chars) =
      done.reverse ++ current.reverse :: more.map (·.word.chars) := by
  have hend : endWord done current = current.reverse :: done := by
    rw [endWord, if_neg (by simpa using hcurrent)]
  induction more generalizing done current with
  | nil =>
      rw [List.flatMap_nil, List.nil_append]
      by_cases htrail : trail.chars = []
      · rw [htrail, wordsAfter, hend]
        simp
      · rw [← List.append_nil trail.chars, wordsAfter_blanks trail.blank (Or.inl htrail), hend,
          wordsAfter, endWord_nil]
        simp
  | cons w rest ih =>
      have hword : w.word.chars.reverse ≠ [] := mt List.reverse_eq_nil_iff.mp w.word.ne_nil
      rw [List.flatMap_cons, SpacedWord.chars, List.append_assoc, List.append_assoc,
        wordsAfter_blanks w.gap.blank (Or.inl w.gap_ne_nil), hend,
        wordsAfter_append w.word.complete, List.append_nil, ih hword (by
          rw [endWord, if_neg (by simpa using w.word.ne_nil)])]
      simp

/-- **Words that are laid out** are read as they are, whatever blanks stand
between them. -/
theorem wordChars_layOut (lead : Blanks) (first : CompleteWord) (more : List SpacedWord)
    (trail : Blanks) :
    wordChars (layOut lead first more trail).toList =
      first.chars :: more.map (·.word.chars) := by
  have hfirst : first.chars.reverse ≠ [] := mt List.reverse_eq_nil_iff.mp first.ne_nil
  rw [layOut, String.toList_ofList, wordChars, List.append_assoc, List.append_assoc,
    wordsAfter_blanks lead.blank (Or.inr rfl), endWord_nil, wordsAfter_append first.complete,
    List.append_nil, wordsAfter_spaced more trail hfirst]
  simp

end CodeFence.InfoString
