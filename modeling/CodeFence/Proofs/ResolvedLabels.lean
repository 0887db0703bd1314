import CodeFence.Proofs.DirectiveOrder
import CodeFence.Proofs.WordCuts
import CodeFence.Proofs.WrittenLabels

/-!
# Labels without their backslashes

The backslashes in front of the quotes and backslashes of a label may have been
resolved before the info string is read.  Then the label stands between quotes as it
is.  It is still read if no blank of it cuts the word that it stands in, and if none
of its own backslashes is resolved in turn.  Otherwise what is read is no longer than
the label, but not the label.

* `quoted`, `titled` — a text between quotes, and the info string that gives it as a
  title;
* `exists_cut`, `wordChars_cons` — a word that is cut, and the words behind it;
* `Shrunk`, `shrunk_label?` — a label is its value or shorter;
* `title_titled` — the title that such an info string gives;
* `title_titled_escapeLabel` — with its backslashes, every label is the title;
* `title_titled_eq_some_iff` — without them, when it still is.
-/

namespace CodeFence.InfoString

variable {cs value word inner back : List Char} {quote : Option Char} {label : String}

/-- A text between quotes, as it is. -/
def quoted (inner : List Char) : List Char :=
  '"' :: inner ++ ['"']

/-- The info string of a plain text that gives what stands between quotes as a title. -/
def titled (inner : List Char) : List Char :=
  "text title:".toList ++ quoted inner

/-! ## Words that are cut -/

theorem getLast?_tail_ne {a c : Char} (h : (c :: cs).getLast? ≠ some a) :
    cs.getLast? ≠ some a := by
  cases cs with
  | nil => exact fun hnil => nomatch hnil
  | cons d more => simpa using h

/-- **A blank cuts a word** that does not go on, unless a backslash ends it. -/
theorem exists_cut (h : quoteAfter quote cs = none) (hlast : cs.getLast? ≠ some '\\') :
    ∃ front c back, cs = front ++ c :: back ∧ Text.isBlank c = true ∧
      quoteAfter quote front = some none := by
  fun_induction quoteAfter quote cs with
  | case1 => cases h
  | case2 => exact absurd rfl hlast
  | case3 quote c rest ih =>
      obtain ⟨front, b, back, rfl, hb, hfront⟩ := ih h (getLast?_tail_ne (getLast?_tail_ne hlast))
      exact ⟨'\\' :: c :: front, b, back, rfl, hb, hfront⟩
  | case4 q c rest hlone hpair ih =>
      obtain ⟨front, b, back, rfl, hb, hfront⟩ := ih h (getLast?_tail_ne hlast)
      exact ⟨c :: front, b, back, rfl, hb, by simp [quoteAfter, ne_backslash hlone hpair, hfront]⟩
  | case5 c rest hlone hpair hquote ih =>
      obtain ⟨front, b, back, rfl, hb, hfront⟩ := ih h (getLast?_tail_ne hlast)
      exact ⟨c :: front, b, back, rfl, hb,
        by simp [quoteAfter, ne_backslash hlone hpair, hquote, hfront]⟩
  | case6 c rest hlone hpair hquote hblank => exact ⟨[], c, rest, rfl, hblank, rfl⟩
  | case7 c rest hlone hpair hquote hblank ih =>
      obtain ⟨front, b, back, rfl, hb, hfront⟩ := ih h (getLast?_tail_ne hlast)
      exact ⟨c :: front, b, back, rfl, hb,
        by simp [quoteAfter, ne_backslash hlone hpair, hquote, hblank, hfront]⟩

/-- A complete word in front of a blank is the first one, and the others are those
behind the blank. -/
theorem wordChars_cons {c : Char} (hne : word ≠ []) (hword : quoteAfter none word = some none)
    (hc : Text.isBlank c = true) (back : List Char) :
    wordChars (word ++ c :: back) = word :: wordChars back := by
  have hend : endWord [] word.reverse = [word] := by simp [endWord, hne]
  have hearly := wordsAfter_early [] [word] [] none back
  rw [wordChars, wordsAfter_append hword, List.append_nil, wordsAfter_blank hc, hend]
  exact hearly

/-- Words are no longer than the text that they are cut from. -/
theorem length_le_of_mem_wordChars (h : word ∈ wordChars cs) : word.length ≤ cs.length := by
  have hkept : ∀ p : Place, (withoutGaps p cs).length ≤ cs.length := by
    clear h
    induction cs with
    | nil => exact fun _ => Nat.le_refl 0
    | cons c rest ih =>
        intro p
        unfold withoutGaps
        split
        · exact Nat.le_succ_of_le (ih _)
        · exact Nat.succ_le_succ (ih _)
  have hflat : (wordChars cs).flatten = withoutGaps {} cs := flatten_wordsAfter [] [] none cs
  calc word.length ≤ (wordChars cs).flatten.length := (List.sublist_flatten_of_mem h).length_le
    _ ≤ cs.length := by rw [hflat]; exact hkept {}

/-! ## Labels -/

/-- A text is as it was, or shorter. -/
def Shrunk (after before : List Char) : Prop :=
  after = before ∨ after.length < before.length

namespace Shrunk

variable {as bs ds : List Char}

theorem length_le (h : Shrunk as bs) : as.length ≤ bs.length := by
  rcases h with rfl | hlt
  · exact Nat.le_refl _
  · exact Nat.le_of_lt hlt

theorem trans (h : Shrunk as bs) (h' : Shrunk bs ds) : Shrunk as ds := by
  rcases h with rfl | hlt
  · exact h'
  · exact Or.inr (Nat.lt_of_lt_of_le hlt h'.length_le)

theorem cons (h : Shrunk as bs) (c : Char) : Shrunk (c :: as) (c :: bs) :=
  h.imp (congrArg (c :: ·)) Nat.succ_lt_succ

/-- One character instead of two. -/
theorem one_for_two (h : Shrunk as bs) (a b c : Char) : Shrunk (a :: as) (b :: c :: bs) :=
  Or.inr (Nat.lt_succ_of_le (Nat.succ_le_succ h.length_le))

theorem eq_of_length_le (h : Shrunk as bs) (hle : bs.length ≤ as.length) : as = bs :=
  h.resolve_right (Nat.not_lt_of_le hle)

end Shrunk

theorem shrunk_unescapeLabel (cs : List Char) : Shrunk (unescapeLabel cs) cs := by
  fun_induction unescapeLabel cs with
  | case1 rest ih => exact ih.one_for_two _ _ _
  | case2 rest ih => exact ih.one_for_two _ _ _
  | case3 rest ih => exact ih.one_for_two _ _ _
  | case4 rest ih => exact ih.one_for_two _ _ _
  | case5 rest ih => exact ih.one_for_two _ _ _
  | case6 c rest _ _ _ _ _ ih => exact (ih.cons c).cons '\\'
  | case7 c rest _ _ _ _ _ _ ih => exact ih.cons c
  | case8 => exact Or.inl rfl

theorem shrunk_dropQuotes (cs : List Char) : Shrunk (dropQuotes cs) cs := by
  have hwithin : ∀ q inner, (Text.after? [q] cs).bind (Text.before? [q]) = some inner →
      inner.length < cs.length := by
    intro q inner h
    obtain ⟨rest, hrest, hinner⟩ := Option.bind_eq_some_iff.mp h
    rw [Text.after?_eq_some_iff.mp hrest, Text.before?_eq_some_iff.mp hinner]
    simp only [List.length_append, List.length_singleton]
    omega
  unfold dropQuotes
  dsimp only
  cases hdouble : (Text.after? ['"'] cs).bind (Text.before? ['"']) with
  | some inner => exact Or.inr (hwithin '"' inner hdouble)
  | none =>
      cases hsingle : (Text.after? ['\''] cs).bind (Text.before? ['\'']) with
      | some inner => exact Or.inr (hwithin '\'' inner hsingle)
      | none => exact Or.inl rfl

theorem shrunk_capLabel (h : capLabel cs = some label) : Shrunk label.toList cs := by
  obtain ⟨-, rfl⟩ := capLabel_eq_some_iff.mp h
  rw [String.toList_ofList]
  by_cases hlong : cs.length ≤ maxLabelLength
  · exact Or.inl (List.take_of_length_le hlong)
  · right
    rw [List.length_take]
    omega

/-- **A label is its value**, or shorter. -/
theorem shrunk_label? (h : label? value = some label) : Shrunk label.toList value :=
  ((shrunk_capLabel h).trans (shrunk_unescapeLabel _)).trans (shrunk_dropQuotes value)

/-- A title is shorter than the word that gives it. -/
theorem length_lt_of_title (h : .title label ∈ (Directive.ofWord word).changes) :
    label.toList.length < word.length := by
  have hhas := Topic.has_of_mem_changes (t := .title) h rfl
  have hread : ∀ lead : String, lead.toList ≠ [] →
      (lead, fun raw => Directive.ofLabel raw .title) ∈ Directive.readers →
      Text.startsWith lead.toList word = true → label.toList.length < word.length := by
    intro lead hlead hreader hstarts
    obtain ⟨value, hvalue⟩ := Option.isSome_iff_exists.mp hstarts
    rw [Text.after?_eq_some_iff.mp hvalue] at h ⊢
    rw [Directive.ofWord_reader hreader] at h
    rcases Directive.ofLabel_cases value .title with ⟨label', hlabel, hof⟩ | ⟨-, hof⟩
    · rw [hof] at h
      obtain rfl : label = label' := Change.title.inj (List.mem_singleton.mp h)
      have hle := (shrunk_label? hlabel).length_le
      have hpos := List.length_pos_iff.mpr hlead
      rw [List.length_append]
      omega
    · rw [hof] at h
      exact absurd h List.not_mem_nil
  rw [Topic.has, Bool.or_eq_true] at hhas
  rcases hhas with hhas | hhas
  · exact hread "title:" (by decide) (by simp [Directive.readers]) hhas
  · exact hread "file:" (by decide) (by simp [Directive.readers]) hhas

/-! ## Titles -/

/-- **A text between quotes** is one word, or a blank cuts it, and then it cuts the
directive with the text in the same place. -/
theorem wordChars_quoted_cases (inner : List Char) :
    (wordChars (quoted inner) = [quoted inner] ∧
      wordChars ("title:".toList ++ quoted inner) = ["title:".toList ++ quoted inner]) ∨
    ∃ front c back, quoted inner = front ++ c :: back ∧ Text.isBlank c = true ∧ front ≠ [] ∧
      wordChars (quoted inner) = front :: wordChars back ∧
      wordChars ("title:".toList ++ quoted inner) =
        ("title:".toList ++ front) :: wordChars back := by
  have hlead : quoteAfter none "title:".toList = some none := by decide
  cases hquote : quoteAfter none (quoted inner) with
  | some quote =>
      left
      refine ⟨wordChars_of_quoteAfter (by simp [quoted]) hquote, ?_⟩
      exact wordChars_of_quoteAfter (by simp) ((quoteAfter_append hlead _).trans hquote)
  | none =>
      right
      have hlast : (quoted inner).getLast? ≠ some '\\' := by
        rw [quoted, List.getLast?_concat]
        decide
      obtain ⟨front, c, back, hcut, hc, hfront⟩ := exists_cut hquote hlast
      have hne : front ≠ [] := by
        rintro rfl
        obtain rfl := (List.cons.inj hcut).1
        exact absurd hc (by decide)
      have htitle := (quoteAfter_append hlead front).trans hfront
      refine ⟨front, c, back, hcut, hc, hne, ?_, ?_⟩
      · rw [hcut, wordChars_cons hne hfront hc]
      · rw [hcut, ← List.append_assoc, wordChars_cons (by simp) htitle hc]

/-- The title of such an info string is the last one that its words give. -/
theorem title_titled (inner : List Char) :
    (parse (String.ofList (titled inner))).config.title =
      latest? Change.title? (changesOf (wordChars ("title:".toList ++ quoted inner))) := by
  have hwords : wordChars (titled inner) =
      "text".toList :: wordChars ("title:".toList ++ quoted inner) :=
    @wordChars_cons "text".toList ' ' (by decide) (by decide) (by decide) _
  rw [parse, String.toList_ofList, hwords, config_ofWords]

/-- **A label with its backslashes** is the title. -/
theorem title_titled_escapeLabel (hne : label ≠ "") (hmax : label.length ≤ maxLabelLength) :
    (parse (String.ofList (titled (escapeLabel '"' label.toList)))).config.title = some label := by
  let word := LabelDirective.title.word (by decide : isQuote '"' = true) label
  have hword : wordChars ("title:".toList ++ quoted (escapeLabel '"' label.toList)) =
      [LabelDirective.title.chars '"' label] :=
    wordChars_of_quoteAfter word.ne_nil word.complete
  have htake : String.ofList (label.toList.take maxLabelLength) = label := by
    rw [List.take_of_length_le hmax, String.ofList_toList]
  rw [title_titled, hword, changesOf_cons, LabelDirective.ofWord_chars _ (by decide) hne, htake]
  rfl

/-- A title that words give is that of one of them. -/
theorem exists_of_latest?_title {words : List (List Char)}
    (h : latest? Change.title? (changesOf words) = some label) :
    ∃ word ∈ words, .title label ∈ (Directive.ofWord word).changes := by
  obtain ⟨c, hc, htitle⟩ := List.mem_filterMap.mp (List.mem_of_getLast? h)
  cases c with
  | title t =>
      obtain rfl := Option.some.inj htitle
      exact mem_changesOf.mp hc
  | _ => cases htitle

theorem ofWord_title (value : List Char) :
    Directive.ofWord ("title:".toList ++ value) = Directive.ofLabel value .title := by
  have hreader : ("title:", fun raw => Directive.ofLabel raw .title) ∈ Directive.readers := by
    simp [Directive.readers]
  exact Directive.ofWord_reader hreader value

theorem title_mem_ofWord_title :
    .title label ∈ (Directive.ofWord ("title:".toList ++ value)).changes ↔
      label? value = some label := by
  rw [ofWord_title, Directive.ofLabel]
  cases label? value with
  | none => simp
  | some t => simp [eq_comm]

/-- **What is cut** gives a title that is no longer than the text between the quotes,
and another one. -/
theorem length_le_and_ne_of_cut {front : List Char} {c : Char}
    (hcut : quoted inner = front ++ c :: back) (hc : Text.isBlank c = true) (hne : front ≠ [])
    (h : latest? Change.title? (changesOf (("title:".toList ++ front) :: wordChars back)) =
      some label) : label.toList.length ≤ inner.length ∧ label.toList ≠ inner := by
  have hquote : c ≠ '"' := by
    rintro rfl
    exact absurd hc (by decide)
  have hback : back ≠ [] := by
    rintro rfl
    obtain ⟨-, hlast⟩ := List.append_inj' hcut rfl
    exact hquote (List.cons.inj hlast).1.symm
  have hlength : inner.length + 1 = front.length + back.length := by
    have heq := congrArg List.length hcut
    simp only [quoted, List.cons_append, List.length_cons, List.length_append,
      List.length_nil] at heq
    omega
  have hfirst := List.length_pos_iff.mpr hne
  have hbehind := List.length_pos_iff.mpr hback
  obtain ⟨word, hword, htitle⟩ := exists_of_latest?_title h
  rcases List.mem_cons.mp hword with rfl | hword
  · have hlabel := shrunk_label? (title_mem_ofWord_title.mp htitle)
    have hle := hlabel.length_le
    refine ⟨by omega, ?_⟩
    rintro rfl
    -- the title would be all of the first word, with both quotes in one character behind it
    have hfront := hlabel.eq_of_length_le (by omega)
    have hsame := congrArg List.length hfront
    have hcount := congrArg (List.count '"') hcut
    simp only [quoted, hfront, List.cons_append, List.count_cons, List.count_append,
      beq_self_eq_true, if_true, beq_iff_eq, hquote, if_false, List.count_nil] at hcount
    have hone : back.count '"' ≤ back.length := List.count_le_length
    omega
  · have hshort := length_lt_of_title htitle
    have hle := length_le_of_mem_wordChars hword
    refine ⟨by omega, ?_⟩
    rintro rfl
    omega

/-- **A label without its backslashes** is the title exactly if it has not been changed,
it is one word between its quotes, and no backslash in it is resolved. -/
theorem title_titled_eq_some_iff (hne : label ≠ "") (hmax : label.length ≤ maxLabelLength)
    (hinner : inner.Sublist label.toList) :
    (parse (String.ofList (titled inner))).config.title = some label ↔
      inner = label.toList ∧ wordChars (quoted label.toList) = [quoted label.toList] ∧
        unescapeLabel label.toList = label.toList := by
  have hquotes : dropQuotes (quoted inner) = inner := dropQuotes_quoted (by decide) inner
  rw [title_titled]
  constructor
  · intro h
    rcases wordChars_quoted_cases inner with ⟨hwhole, htitle⟩ |
      ⟨front, c, back, hcut, hc, hfront, -, htitle⟩
    · rw [htitle] at h
      obtain ⟨word, hword, hmem⟩ := exists_of_latest?_title h
      rw [List.mem_singleton.mp hword, title_mem_ofWord_title, label?, hquotes] at hmem
      have hcap := shrunk_capLabel hmem
      have hread := shrunk_unescapeLabel inner
      -- what is read is no longer than the text between the quotes, and that is no longer
      -- than the label
      have heq := hcap.eq_of_length_le (Nat.le_trans hread.length_le hinner.length_le)
      have hsame := hread.eq_of_length_le (heq ▸ hinner.length_le)
      have hlabel : label.toList = inner := heq.trans hsame
      rw [hlabel]
      exact ⟨rfl, hwhole, hsame⟩
    · rw [htitle] at h
      obtain ⟨hle, hother⟩ := length_le_and_ne_of_cut hcut hc hfront h
      exact absurd (hinner.eq_of_length_le hle).symm hother
  · rintro ⟨rfl, hwhole, hsame⟩
    rcases wordChars_quoted_cases label.toList with ⟨-, htitle⟩ |
      ⟨front, c, back, hcut, -, -, hwords, -⟩
    · have hlabel : label? (quoted label.toList) = some label := by
        rw [label?, hquotes, hsame, capLabel_toList hne hmax]
      rw [htitle, changesOf_cons, ofWord_title, Directive.ofLabel, hlabel]
      rfl
    · rw [hwords] at hwhole
      have hlengths := congrArg List.length (List.cons.inj hwhole).1
      rw [hcut, List.length_append, List.length_cons] at hlengths
      omega

end CodeFence.InfoString
