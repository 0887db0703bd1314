import CodeFence.Yaml.Scalar

/-!
# Scalars between quotes

A reader inside quotes goes on to the quote that closes the scalar and takes no notice of
what is behind it.  The one between double quotes takes a character, or a backslash and a
character, at a time; what it holds meanwhile is a state of its own, and what it does is
given by its steps.

* `Reading`, `Takes` — what the reader between double quotes holds, and its steps;
* `Reading.finish?_cases`, `Takes.finish?_eq` — the reader stops at a quote or takes a step;
* `Place.behind` — the place behind some characters;
* `ReadsQuoted` — a reader that takes the same characters down to a quote at any place in the
  column and in front of any text;
* `readsQuoted_singleAfter`, `readsQuoted_finish?` — both readers are such.
-/

namespace CodeFence.Yaml

/-! ## One step between double quotes -/

/-- What a reader between double quotes holds. -/
structure Reading where
  out : List Char
  gap : Gap
  pending : Nat
  value : Nat

/-- The rest of a scalar between double quotes. -/
def Reading.finish? (r : Reading) (place : Place) (cs : List Char) : Option Scalar :=
  doubleAfter r.out r.gap r.pending r.value place cs

/-- What a reader between double quotes makes of the next character, or of a backslash and a
character. -/
inductive Takes : Reading → List Char → Reading → Prop
  | lastDigit {out gap value c d e} (hdigit : Text.hexValue? c = some d)
      (hchar : charAt? (value * 16 + d) = some e) :
      Takes ⟨out, gap, 1, value⟩ [c] ⟨e :: out, .none, 0, 0⟩
  | digit {out gap n value c d} (hdigit : Text.hexValue? c = some d) :
      Takes ⟨out, gap, n + 2, value⟩ [c] ⟨out, .none, n + 1, value * 16 + d⟩
  | blank {out gap value c} (hspace : isSpace c = true) :
      Takes ⟨out, gap, 0, value⟩ [c] ⟨out, gap.withBlank c, 0, 0⟩
  | lineBreak {out gap value c} (hbreak : isBreak c = true) :
      Takes ⟨out, gap, 0, value⟩ [c] ⟨out, gap.withBreak c, 0, 0⟩
  | hidden {out gap value e} (hbreak : isBreak e = true) :
      Takes ⟨out, gap, 0, value⟩ ['\\', e] ⟨gap.folded ++ out, .breaks none [], 0, 0⟩
  | letter {out gap value e c} (hbreak : isBreak e = false) (hletter : escaped? e = some c) :
      Takes ⟨out, gap, 0, value⟩ ['\\', e] ⟨c :: (gap.folded ++ out), .none, 0, 0⟩
  | wide {out gap value e width} (hbreak : isBreak e = false) (hletter : escaped? e = none)
      (hwidth : escapeWidth? e = some width) :
      Takes ⟨out, gap, 0, value⟩ ['\\', e] ⟨gap.folded ++ out, .none, width, 0⟩
  | other {out gap value c} (hquote : c ≠ '"') (hspace : isSpace c = false)
      (hbreak : isBreak c = false) (hescape : c ≠ '\\') :
      Takes ⟨out, gap, 0, value⟩ [c] ⟨c :: (gap.folded ++ out), .none, 0, 0⟩

variable {c : Char} {cs more rest used : List Char} {place place' : Place}

/-! ## Places -/

/-- The place behind some characters. -/
def Place.behind (place : Place) (used : List Char) : Place :=
  used.foldl Place.after place

theorem Place.column_after (h : place'.column = place.column) (c : Char) :
    (place'.after c).column = (place.after c).column := by
  unfold Place.after
  split
  · rfl
  · exact congrArg (· + 1) h

theorem Place.column_behind (h : place'.column = place.column) (used : List Char) :
    (place'.behind used).column = (place.behind used).column := by
  induction used generalizing place place' with
  | nil => exact h
  | cons c used ih => exact ih (column_after h c)

/-- Characters of one line move a place by their number. -/
theorem Place.column_behind_line (hused : ∀ c ∈ used, isBreak c = false) :
    (place.behind used).column = place.column + used.length := by
  induction used generalizing place with
  | nil => rfl
  | cons c used ih =>
      obtain ⟨hc, hused⟩ := List.forall_mem_cons.mp hused
      refine (ih hused).trans ?_
      simp only [Place.after, hc, List.length_cons]
      simp only [Bool.false_eq_true, if_false]
      omega

/-- Whether a mark stands in front shows in the text down to any other character. -/
theorem any_endsToken_append {lead : List Char} (hc : c ∈ cs) (hlead : c ∉ lead)
    (more : List Char) :
    (Text.after? lead (cs ++ more)).any endsToken = (Text.after? lead cs).any endsToken := by
  induction lead generalizing cs with
  | nil => cases cs with
    | nil => cases hc
    | cons d cs => rfl
  | cons a lead ih =>
      cases cs with
      | nil => cases hc
      | cons d cs =>
          obtain ⟨hne, hlead⟩ := not_or.mp (mt List.mem_cons.mpr hlead)
          simp only [List.cons_append, Text.after?]
          split
          · next heq =>
              refine ih ((List.mem_cons.mp hc).resolve_left fun hcd => hne ?_) hlead
              exact hcd.trans heq.symm
          · rfl

theorem opensDocument_append (hc : c ∈ cs) (hdash : c ≠ '-') (more : List Char) :
    opensDocument (cs ++ more) = opensDocument cs :=
  any_endsToken_append hc (by simpa using hdash) more

theorem closesDocument_append (hc : c ∈ cs) (hdot : c ≠ '.') (more : List Char) :
    closesDocument (cs ++ more) = closesDocument cs :=
  any_endsToken_append hc (by simpa using hdot) more

theorem isDocumentMark_append (hc : c ∈ cs) (hdash : c ≠ '-') (hdot : c ≠ '.')
    (more : List Char) : isDocumentMark (cs ++ more) = isDocumentMark cs := by
  rw [isDocumentMark, isDocumentMark, opensDocument_append hc hdash, closesDocument_append hc hdot]

/-! ## Quoted scalars -/

/-- A quote in front of this text ends a scalar: a single one must not be followed by another. -/
def IsClosed (quote : Char) (more : List Char) : Prop :=
  quote = '\'' → more.head? ≠ some '\''

/-- The reader takes some characters down to a quote, and reads the same at any place in that
column and in front of any text that does not double the quote. -/
def ReadsQuoted (quote : Char) (read : Place → List Char → Option Scalar) (place : Place)
    (cs : List Char) : Prop :=
  ∀ scalar, read place cs = some scalar → IsClosed quote scalar.next.rest ∧
    scalar.isPlain = false ∧ ∃ used, used.getLast? = some quote ∧ cs = used ++ scalar.next.rest ∧
      scalar.next.toPlace = place.behind used ∧
      ∀ place' more, place'.column = place.column → IsClosed quote more →
        read place' (used ++ more) = some { scalar with next := ⟨place'.behind used, more⟩ }

variable {quote : Char} {read next : Place → List Char → Option Scalar} {out : List Char}
  {gap : Gap} {pending value : Nat}

theorem ReadsQuoted.of_none (h : read place cs = none) : ReadsQuoted quote read place cs := by
  intro scalar hread
  rw [h] at hread
  cases hread

/-- Whether the mark of a document stands at a place, which ends a quoted scalar unread. -/
def atMark (place : Place) (cs : List Char) : Bool :=
  decide (place.column = 0) && isDocumentMark cs

theorem atMark_append (hc : c ∈ cs) (hmark : c ≠ '-' ∧ c ≠ '.')
    (hcol : place'.column = place.column) (more : List Char) :
    atMark place' (cs ++ more) = atMark place cs := by
  rw [atMark, atMark, hcol, isDocumentMark_append hc hmark.1 hmark.2]

/-- The reader takes some characters and goes on as another one. -/
theorem ReadsQuoted.step (taken : List Char) (hquote : quote ≠ '-' ∧ quote ≠ '.')
    (hnext : ReadsQuoted quote next (place.behind taken) rest)
    (heq : ∀ place' row, atMark place' (taken ++ row) = atMark place (taken ++ rest) →
      read place' (taken ++ row) = next (place'.behind taken) row) :
    ReadsQuoted quote read place (taken ++ rest) := by
  intro scalar hread
  rw [heq place rest rfl] at hread
  obtain ⟨hclosed, hquoted, used, hused, rfl, hplace, hmore⟩ := hnext scalar hread
  have hmark {place' : Place} (hcol : place'.column = place.column) (row : List Char) :
      atMark place' (taken ++ (used ++ row)) = atMark place (taken ++ used) := by
    rw [← List.append_assoc]
    exact atMark_append (List.mem_append_right _ (List.mem_of_getLast? hused)) hquote hcol row
  refine ⟨hclosed, hquoted, taken ++ used, ?_, (List.append_assoc ..).symm, ?_, ?_⟩
  · rw [List.getLast?_append, hused, Option.some_or]
  · rw [hplace, Place.behind, Place.behind, Place.behind, List.foldl_append]
  · intro place' more hcol hhead
    rw [List.append_assoc, heq place' _ ((hmark hcol more).trans (hmark rfl _).symm),
      hmore _ more (Place.column_behind hcol taken) hhead]
    simp only [Place.behind, List.foldl_append]

/-- The reader stops behind the quote. -/
theorem ReadsQuoted.stop (text : List Char)
    (hrest : read place (quote :: rest) = some ⟨text, false, false, ⟨place.after quote, rest⟩⟩)
    (heq : ∀ place' more, atMark place' (quote :: more) = atMark place (quote :: rest) →
      IsClosed quote more →
        read place' (quote :: more) = some ⟨text, false, false, ⟨place'.after quote, more⟩⟩)
    (hclosed : IsClosed quote rest) (hquote : quote ≠ '-' ∧ quote ≠ '.') :
    ReadsQuoted quote read place (quote :: rest) := by
  intro scalar hread
  obtain rfl := Option.some.inj (hrest.symm.trans hread)
  have hmark {place' : Place} (hcol : place'.column = place.column) (row : List Char) :
      atMark place' (quote :: row) = atMark place [quote] :=
    atMark_append (List.mem_singleton_self quote) hquote hcol row
  exact ⟨hclosed, rfl, [quote], rfl, rfl, rfl, fun place' more hcol =>
    heq place' more ((hmark hcol more).trans (hmark rfl rest).symm)⟩

theorem readsQuoted_singleAfter (out : List Char) (gap : Gap) (place : Place) (cs : List Char) :
    ReadsQuoted '\'' (singleAfter out gap) place cs := by
  have hquote : '\'' ≠ '-' ∧ '\'' ≠ '.' := by decide
  induction out, gap, place, cs using singleAfter.induct with
  | case1 => exact .of_none rfl
  | case2 out gap place rest ih =>
      exact .step ['\'', '\''] hquote ih fun place' row _ => singleAfter.eq_2 ..
  | case3 out gap place rest hrest =>
      refine .stop _ (singleAfter.eq_3 out gap place rest hrest) ?_ ?_ hquote
      · intro place' more _ hclosed
        refine singleAfter.eq_3 out gap place' more ?_
        rintro rest' rfl
        exact hclosed rfl rfl
      · intro _ hhead
        obtain ⟨rest', rfl⟩ := List.head?_eq_some_iff.mp hhead
        exact hrest rest' rfl
  | case4 out gap place c rest hdouble hsingle hmark =>
      exact .of_none (by rw [singleAfter.eq_4 _ _ _ _ _ hdouble hsingle, if_pos hmark])
  | case5 out gap place c rest hdouble hsingle hmark hspace ih =>
      refine .step [c] hquote ih fun place' row hsame => ?_
      refine (singleAfter.eq_4 _ _ _ _ _ (fun _ h _ => hsingle h) hsingle).trans ?_
      exact (if_neg fun h => hmark (hsame.symm.trans h)).trans (if_pos hspace)
  | case6 out gap place c rest hdouble hsingle hmark hspace hbreak ih =>
      refine .step [c] hquote ih fun place' row hsame => ?_
      refine (singleAfter.eq_4 _ _ _ _ _ (fun _ h _ => hsingle h) hsingle).trans ?_
      exact (if_neg fun h => hmark (hsame.symm.trans h)).trans
        ((if_neg hspace).trans (if_pos hbreak))
  | case7 out gap place c rest hdouble hsingle hmark hspace hbreak ih =>
      refine .step [c] hquote ih fun place' row hsame => ?_
      refine (singleAfter.eq_4 _ _ _ _ _ (fun _ h _ => hsingle h) hsingle).trans ?_
      exact (if_neg fun h => hmark (hsame.symm.trans h)).trans
        ((if_neg hspace).trans (if_neg hbreak))

theorem isSpace_of_isBreak (h : isBreak c = true) : isSpace c = false := by
  simp only [isBreak, Bool.or_eq_true, decide_eq_true_eq] at h
  rcases h with (rfl | rfl) | rfl <;> rfl

theorem Takes.finish?_eq {r r' : Reading} {taken : List Char} (h : Takes r taken r')
    (hmark : r.pending = 0 → atMark place (taken ++ rest) = false) :
    r.finish? place (taken ++ rest) = r'.finish? (place.behind taken) rest := by
  unfold atMark at hmark
  cases h with
  | lastDigit hdigit hchar => simp [Reading.finish?, doubleAfter, hdigit, hchar, Place.behind]
  | digit hdigit => simp [Reading.finish?, doubleAfter, hdigit, Place.behind]
  | @blank _ _ _ c hspace =>
      have hne : c ≠ '"' := by rintro rfl; cases hspace
      simp_all [Reading.finish?, doubleAfter, Place.behind]
  | @lineBreak _ _ _ c hbreak =>
      have hne : c ≠ '"' := by rintro rfl; cases hbreak
      simp_all [Reading.finish?, doubleAfter, Place.behind, isSpace_of_isBreak]
  | hidden hbreak => 
      have hspace : isSpace '\\' = false := rfl
      have hnobreak : isBreak '\\' = false := rfl
      simp_all [Reading.finish?, doubleAfter, Place.behind]
  | letter hbreak hletter => 
      have hspace : isSpace '\\' = false := rfl
      have hnobreak : isBreak '\\' = false := rfl
      simp_all [Reading.finish?, doubleAfter, Place.behind]
  | wide hbreak hletter hwidth => 
      have hspace : isSpace '\\' = false := rfl
      have hnobreak : isBreak '\\' = false := rfl
      simp_all [Reading.finish?, doubleAfter, Place.behind]
  | other hquote hspace hbreak hescape => simp_all [Reading.finish?, doubleAfter, Place.behind]

/-- **One step between double quotes.** The reader stops at a quote or takes a character or an
escape. -/
theorem Reading.finish?_cases {r : Reading} {scalar : Scalar}
    (h : r.finish? place cs = some scalar) :
    (r.pending = 0 → atMark place cs = false) ∧
      ((∃ rest, r.pending = 0 ∧ cs = '"' :: rest ∧
        scalar = ⟨(r.gap.folded ++ r.out).reverse, false, false, ⟨place.after '"', rest⟩⟩) ∨
      ∃ taken r' rest, Takes r taken r' ∧ cs = taken ++ rest ∧
        r'.finish? (place.behind taken) rest = some scalar) := by
  obtain ⟨out, gap, pending, value⟩ := r
  cases cs with
  | nil => cases h
  | cons c rest =>
      rw [Reading.finish?, doubleAfter] at h
      dsimp only at h
      split at h
      · next hpending =>
          -- A digit of an escape.
          refine ⟨fun hzero => absurd hzero (Nat.ne_of_gt hpending), .inr ?_⟩
          split at h
          · cases h
          · next d hdigit =>
              split at h
              · next hone =>
                  obtain rfl : pending = 1 := hone
                  split at h
                  · next e hchar => exact ⟨[c], _, rest, .lastDigit hdigit hchar, rfl, h⟩
                  · cases h
              · next hone =>
                  obtain ⟨n, rfl⟩ : ∃ n, pending = n + 2 := ⟨pending - 2, by omega⟩
                  exact ⟨[c], _, rest, .digit hdigit, rfl, h⟩
      · next hpending =>
          obtain rfl : pending = 0 := Nat.eq_zero_of_not_pos hpending
          split at h
          · cases h
          · next hmark =>
              refine ⟨fun _ => Bool.eq_false_iff.mpr hmark, ?_⟩
              split at h
              · next hquote =>
                  cases h
                  exact .inl ⟨rest, rfl, congrArg (· :: rest) hquote, by rw [hquote]⟩
              refine .inr ?_
              split at h
              · next hspace => exact ⟨[c], _, rest, .blank hspace, rfl, h⟩
              split at h
              · next hbreak => exact ⟨[c], _, rest, .lineBreak hbreak, rfl, h⟩
              split at h
              · next hescape =>
                  subst hescape
                  cases rest with
                  | nil => cases h
                  | cons e rest =>
                      dsimp only at h
                      split at h
                      · next hbreak => exact ⟨['\\', e], _, rest, .hidden hbreak, rfl, h⟩
                      · next hbreak =>
                          have hbreak := Bool.eq_false_iff.mpr hbreak
                          split at h
                          · next hletter =>
                              exact ⟨['\\', e], _, rest, .letter hbreak hletter, rfl, h⟩
                          · next hletter hwidth =>
                              exact ⟨['\\', e], _, rest, .wide hbreak hletter hwidth, rfl, h⟩
                          · cases h
              · next hquote hspace hbreak hescape =>
                  exact ⟨[c], _, rest, .other hquote (Bool.eq_false_iff.mpr hspace)
                    (Bool.eq_false_iff.mpr hbreak) hescape, rfl, h⟩

theorem Reading.finish?_quote {r : Reading} (hzero : r.pending = 0)
    (hmark : atMark place ('"' :: rest) = false) :
    r.finish? place ('"' :: rest) =
      some ⟨(r.gap.folded ++ r.out).reverse, false, false, ⟨place.after '"', rest⟩⟩ := by
  unfold atMark at hmark
  simp [Reading.finish?, doubleAfter, hzero, hmark]

theorem Takes.length_pos {r r' : Reading} {taken : List Char} (h : Takes r taken r') :
    0 < taken.length := by
  cases h <;> exact Nat.succ_pos _

theorem readsQuoted_finish? (r : Reading) (place : Place) (cs : List Char) :
    ReadsQuoted '"' r.finish? place cs := by
  have hquote : '"' ≠ '-' ∧ '"' ≠ '.' := by decide
  induction hn : cs.length using Nat.strongRecOn generalizing r place cs with
  | _ n ih =>
      intro scalar h
      obtain ⟨hmark, ⟨rest, hzero, rfl, rfl⟩ | ⟨taken, r', rest, htakes, rfl, -⟩⟩ :=
        Reading.finish?_cases h
      · have hstop : ReadsQuoted '"' r.finish? place ('"' :: rest) :=
          .stop _ h (fun place' more hsame _ =>
            Reading.finish?_quote hzero (hsame.trans (hmark hzero))) nofun hquote
        exact hstop _ h
      · have hlt : rest.length < n := by
          have := htakes.length_pos
          rw [List.length_append] at hn
          omega
        have hstep : ReadsQuoted '"' r.finish? place (taken ++ rest) :=
          .step taken hquote (ih _ hlt r' _ rest rfl) fun place' row hsame =>
            htakes.finish?_eq fun hzero => hsame.trans (hmark hzero)
        exact hstep _ h

end CodeFence.Yaml
