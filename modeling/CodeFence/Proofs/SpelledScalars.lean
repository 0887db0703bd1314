import CodeFence.Proofs.YamlScalars
import CodeFence.Text.Blank

/-!
# What a scalar on one line is made of

What stands in a file for a scalar is as heavy as the scalar or heavier, if white space and
quotes weigh nothing: an escape is heavier than what it stands for, and a quote that is
doubled weighs no more than one.  So where nothing heavy is taken off, there is neither an
escape nor a comment behind.

* `isSolid`, `weight` — what is neither white space nor a quote;
* `doubled`, `singleAfter_spelled` — between single quotes each quote is doubled;
* `Takes.spelled`, `Reading.finish?_spelled` — between double quotes a text stands as it is,
  or with an escape in it;
* `Scalar.Stands`, `plainAfter_stands` — without quotes a text stands as it is;
* `hasComment`, `hasComment_iff` — a comment is what a plain scalar stops at;
* `weight_scalar?_le` — what stands in the file is no lighter than the scalar.
-/

namespace CodeFence.Yaml

variable {c : Char} {cs rest out taken trail : List Char} {gap : Gap} {place : Place}
  {scalar : Scalar} {r r' : Reading}

/-! ## What counts -/

/-- Whether a character is neither white space nor a quote. -/
def isSolid (c : Char) : Bool :=
  !Text.isBlank c && c ≠ '"' && c ≠ '\''

/-- How many characters are neither white space nor quotes. -/
def weight (cs : List Char) : Nat :=
  cs.countP isSolid

theorem weight_append (cs ds : List Char) : weight (cs ++ ds) = weight cs + weight ds :=
  List.countP_append

theorem weight_cons (c : Char) (cs : List Char) : weight (c :: cs) = weight [c] + weight cs :=
  weight_append [c] cs

theorem weight_eq_zero (h : ∀ c ∈ cs, isSolid c = false) : weight cs = 0 :=
  List.countP_eq_zero.mpr fun c hc => by simp [h c hc]

theorem weight_reverse (cs : List Char) : weight cs.reverse = weight cs :=
  List.countP_reverse

theorem weight_singleton_le (c : Char) : weight [c] ≤ 1 :=
  List.countP_le_length

theorem weight_of_isSolid (h : isSolid c = true) : weight [c] = 1 := by
  simp [weight, h]

theorem isBlank_of_isSpace (h : isSpace c = true) : Text.isBlank c = true := by
  simp only [isSpace, Bool.or_eq_true, decide_eq_true_eq] at h
  rcases h with rfl | rfl <;> rfl

theorem isSolid_of_isSpace (h : isSpace c = true) : isSolid c = false := by
  simp [isSolid, isBlank_of_isSpace h]

/-! ## Between single quotes -/

/-- A text with each single quote doubled. -/
def doubled (cs : List Char) : List Char :=
  cs.flatMap fun c => if c = '\'' then ['\'', '\''] else [c]

theorem doubled_cons (c : Char) (cs : List Char) :
    doubled (c :: cs) = (if c = '\'' then ['\'', '\''] else [c]) ++ doubled cs := rfl

theorem weight_doubled (cs : List Char) : weight (doubled cs) = weight cs := by
  induction cs with
  | nil => rfl
  | cons c cs ih =>
      rw [doubled_cons, weight_append, ih, weight_cons c cs]
      split
      · next hquote => rw [hquote]; rfl
      · rfl

theorem head?_doubled (cs : List Char) : (doubled cs).head? = cs.head? := by
  cases cs with
  | nil => rfl
  | cons c cs =>
      rw [doubled_cons]
      split
      · next hquote => rw [hquote]; rfl
      · rfl

theorem getLast?_doubled (cs : List Char) : (doubled cs).getLast? = cs.getLast? := by
  induction cs with
  | nil => rfl
  | cons c cs ih =>
      rw [doubled_cons, List.getLast?_append, ih, List.getLast?_cons]
      split
      · next hquote => rw [hquote]; cases cs.getLast? <;> rfl
      · cases cs.getLast? <;> rfl

theorem length_doubled (cs : List Char) :
    (doubled cs).length = cs.length + cs.count '\'' := by
  induction cs with
  | nil => rfl
  | cons c cs ih =>
      rw [doubled_cons, List.length_append, ih, List.length_cons, List.count_cons]
      split
      · next hquote =>
          simp [hquote]
          omega
      · next hquote =>
          simp [hquote]
          omega

theorem not_mem_of_doubled_eq (h : doubled cs = cs) : '\'' ∉ cs := by
  have hlength := congrArg List.length h
  rw [length_doubled] at hlength
  exact List.count_eq_zero.mp (by omega)

/-- What a reader inside quotes has read, with the blanks that it has still to place. -/
def held (out : List Char) (gap : Gap) : List Char :=
  (gap.folded ++ out).reverse

theorem held_none (c : Char) (out : List Char) (gap : Gap) :
    held (c :: (gap.folded ++ out)) .none = held out gap ++ [c] :=
  List.reverse_cons

theorem held_withBlank (hgap : gap.hasBreak = false) (c : Char) (out : List Char) :
    held out (gap.withBlank c) = held out gap ++ [c] := by
  cases gap with
  | blanks cs => exact List.reverse_cons
  | breaks => cases hgap

/-- **Between single quotes.** The text with its quotes doubled stands there. -/
theorem singleAfter_spelled (hline : ∀ c ∈ cs, isBreak c = false) (hgap : gap.hasBreak = false)
    (h : singleAfter out gap place cs = some scalar) : ∃ written,
    cs = doubled written ++ '\'' :: scalar.next.rest ∧ scalar.text = held out gap ++ written := by
  -- A character that is no quote is written as itself.
  have hstep {c : Char} {rest written front : List Char} (hc : c ≠ '\'')
      (hrest : rest = doubled written ++ '\'' :: scalar.next.rest)
      (htext : scalar.text = front ++ [c] ++ written) : ∃ written,
        c :: rest = doubled written ++ '\'' :: scalar.next.rest ∧
          scalar.text = front ++ written := by
    refine ⟨c :: written, ?_, by simpa using htext⟩
    rw [doubled_cons, if_neg hc, hrest]
    rfl
  induction out, gap, place, cs using singleAfter.induct with
  | case1 => cases h
  | case2 out gap place rest ih =>
      rw [singleAfter.eq_2] at h
      obtain ⟨written, rfl, htext⟩ := ih (fun c hc => hline c (by simp [hc])) rfl h
      exact ⟨'\'' :: written, rfl, by simpa [held_none] using htext⟩
  | case3 out gap place rest hrest =>
      rw [singleAfter.eq_3 _ _ _ _ hrest] at h
      cases h
      exact ⟨[], rfl, (List.append_nil _).symm⟩
  | case4 out gap place c rest hdouble hsingle hmark =>
      rw [singleAfter.eq_4 _ _ _ _ _ hdouble hsingle, if_pos hmark] at h
      cases h
  | case5 out gap place c rest hdouble hsingle hmark hspace ih =>
      rw [singleAfter.eq_4 _ _ _ _ _ hdouble hsingle, if_neg hmark, if_pos hspace] at h
      obtain ⟨written, hrest, htext⟩ := ih (List.forall_mem_cons.mp hline).2
        ((hasBreak_withBlank c gap).trans hgap) h
      exact hstep hsingle hrest (held_withBlank hgap c out ▸ htext)
  | case6 out gap place c rest hdouble hsingle hmark hspace hbreak ih =>
      rw [hline c List.mem_cons_self] at hbreak
      cases hbreak
  | case7 out gap place c rest hdouble hsingle hmark hspace hbreak ih =>
      rw [singleAfter.eq_4 _ _ _ _ _ hdouble hsingle, if_neg hmark, if_neg hspace,
        if_neg hbreak] at h
      obtain ⟨written, hrest, htext⟩ := ih (List.forall_mem_cons.mp hline).2 rfl h
      exact hstep hsingle hrest (held_none c out gap ▸ htext)

/-- Only one text is read off in front of a quote that is not doubled. -/
theorem eq_of_doubled {inner written : List Char} (hinner : '\'' ∉ inner)
    (htrail : trail.head? ≠ some '\'')
    (h : inner ++ '\'' :: trail = doubled written ++ '\'' :: rest) :
    written = inner ∧ rest = trail := by
  induction written generalizing inner with
  | nil =>
      cases inner with
      | nil => exact ⟨rfl, (List.cons.inj h).2.symm⟩
      | cons d inner => exact absurd (by simp [(List.cons.inj h).1]) hinner
  | cons c written ih =>
      rw [doubled_cons] at h
      split at h
      · cases inner with
        | nil => exact absurd (by simp [(List.cons.inj h).2]) htrail
        | cons d inner => exact absurd (by simp [(List.cons.inj h).1]) hinner
      · next hquote =>
          cases inner with
          | nil => exact absurd (List.cons.inj h).1.symm hquote
          | cons d inner =>
              rw [List.cons_append, List.singleton_append, List.cons_append, List.cons.injEq] at h
              obtain ⟨rfl, h⟩ := h
              obtain ⟨rfl, rfl⟩ := ih (fun hmem => hinner (List.mem_cons_of_mem d hmem)) h
              exact ⟨rfl, rfl⟩

/-! ## Between double quotes -/

/-- Digits are in the range where only letters are. -/
theorem isSolid_of_range (hlow : 0x27 < c.toNat) (hhigh : c.toNat < 0x80) : isSolid c = true := by
  have hblank : Text.isBlank c = false := by
    simp only [Text.isBlank, Text.within, Text.blankRanges, List.any_cons, List.any_nil]
    simp
    omega
  have hdouble : c ≠ '"' := by rintro rfl; simp at hlow
  have hsingle : c ≠ '\'' := by rintro rfl; simp at hlow
  simp [isSolid, hblank, hdouble, hsingle]

theorem isSolid_of_hexValue? {d : Nat} (h : Text.hexValue? c = some d) : isSolid c = true := by
  have hrange (low high : Char) (h : low ≤ c ∧ c ≤ high) (hlow : 0x27 < low.toNat)
      (hhigh : high.toNat < 0x80) : isSolid c = true :=
    isSolid_of_range (Nat.lt_of_lt_of_le hlow (UInt32.le_iff_toNat_le.mp h.1))
      (Nat.lt_of_le_of_lt (UInt32.le_iff_toNat_le.mp h.2) hhigh)
  unfold Text.hexValue? at h
  split at h
  · next hdigit =>
      simp only [Char.isDigit, Bool.and_eq_true, decide_eq_true_eq] at hdigit
      exact hrange '0' '9' hdigit (by decide) (by decide)
  split at h
  · next hlower => exact hrange _ _ hlower (by decide) (by decide)
  split at h
  · next hupper => exact hrange _ _ hupper (by decide) (by decide)
  · cases h

theorem isSolid_of_escaped? {e : Char} (h : escaped? e = some c) (hc : isSolid c = true) :
    isSolid e = true := by
  unfold escaped? at h
  split at h <;> first | rfl | (cases h; done) | (cases h; exact hc)

theorem Takes.hasBreak (h : Takes r taken r') (hline : ∀ c ∈ taken, isBreak c = false)
    (hgap : r.gap.hasBreak = false) : r'.gap.hasBreak = false := by
  cases h with
  | blank => exact (hasBreak_withBlank _ _).trans hgap
  | lineBreak hbreak => simp [hbreak] at hline
  | hidden hbreak => simp [hbreak] at hline
  | _ => rfl

/-- **One step between double quotes.** A character is taken as it stands, or an escape, which
holds more than it stands for. -/
theorem Takes.spelled (h : Takes r taken r') (hline : ∀ c ∈ taken, isBreak c = false)
    (hgap : r.gap.hasBreak = false) (hzero : r.pending = 0) :
    (∃ c, taken = [c] ∧ c ≠ '"' ∧ c ≠ '\\' ∧ r'.pending = 0 ∧
        held r'.out r'.gap = held r.out r.gap ++ [c]) ∨
      (∃ e, taken = ['\\', e]) ∧
        weight (held r'.out r'.gap) < weight (held r.out r.gap) + weight taken := by
  have hbackslash : weight ['\\'] = 1 := weight_of_isSolid (by decide)
  cases h with
  | lastDigit => cases hzero
  | digit => cases hzero
  | @blank out gap value c hspace =>
      refine .inl ⟨c, rfl, ?_, ?_, rfl, held_withBlank hgap c out⟩ <;> rintro rfl <;> cases hspace
  | lineBreak hbreak => simp [hbreak] at hline
  | hidden hbreak => simp [hbreak] at hline
  | @letter out gap value e c hbreak hletter =>
      refine .inr ⟨⟨e, rfl⟩, ?_⟩
      have hle : weight [c] ≤ weight [e] := by
        by_cases hc : isSolid c = true
        · rw [weight_of_isSolid (isSolid_of_escaped? hletter hc)]
          exact weight_singleton_le c
        · rw [weight_eq_zero (by simpa using hc)]
          exact Nat.zero_le _
      rw [held_none, weight_append, weight_cons '\\' [e], hbackslash]
      show weight (held out gap) + weight [c] < weight (held out gap) + (1 + weight [e])
      omega
  | @wide out gap value e width hbreak hletter hwidth =>
      refine .inr ⟨⟨e, rfl⟩, ?_⟩
      rw [weight_cons '\\' [e], hbackslash]
      exact Nat.lt_add_of_pos_right (Nat.lt_add_right _ Nat.zero_lt_one)
  | @other out gap value c hquote hspace hbreak hescape =>
      exact .inl ⟨c, rfl, hquote, hescape, rfl, held_none c out gap⟩

/-- No step holds more than it takes. -/
theorem Takes.weight_le (h : Takes r taken r') (hline : ∀ c ∈ taken, isBreak c = false)
    (hgap : r.gap.hasBreak = false) :
    weight (held r'.out r'.gap) ≤ weight (held r.out r.gap) + weight taken := by
  by_cases hzero : r.pending = 0
  · rcases h.spelled hline hgap hzero with ⟨c, rfl, -, -, -, heq⟩ | ⟨-, hlt⟩
    · exact Nat.le_of_eq (heq ▸ weight_append ..)
    · exact Nat.le_of_lt hlt
  · have hout (out : List Char) (gap : Gap) : weight (held out .none) ≤ weight (held out gap) := by
      rw [held, held, weight_reverse, weight_reverse, weight_append gap.folded]
      exact Nat.le_add_left ..
    cases h with
    | @lastDigit out gap value c d e hdigit hchar =>
        have hheld : held (e :: out) .none = held out .none ++ [e] := List.reverse_cons
        rw [hheld, weight_append, weight_of_isSolid (isSolid_of_hexValue? hdigit)]
        exact Nat.add_le_add (hout out gap) (weight_singleton_le e)
    | @digit out gap n value c d hdigit => exact Nat.le_add_right_of_le (hout out gap)
    | _ => exact absurd rfl hzero

/-- What stands between the quotes has no less weight than what it stands for. -/
theorem Reading.weight_finish? (hline : ∀ c ∈ cs, isBreak c = false) (hgap : r.gap.hasBreak = false)
    (h : r.finish? place cs = some scalar) :
    weight scalar.text + weight scalar.next.rest ≤ weight (held r.out r.gap) + weight cs := by
  induction hn : cs.length using Nat.strongRecOn generalizing r place cs with
  | _ n ih =>
      obtain ⟨-, ⟨rest, hzero, rfl, rfl⟩ | ⟨taken, r', rest, htakes, rfl, hread⟩⟩ :=
        Reading.finish?_cases h
      · rw [weight_cons '"' rest]
        exact Nat.add_le_add_left (Nat.le_add_left ..) _
      · obtain ⟨htaken, hrest⟩ := List.forall_mem_append.mp hline
        have hlt : rest.length < n := by
          have := htakes.length_pos
          rw [List.length_append] at hn
          omega
        have hle := ih _ hlt hrest (htakes.hasBreak htaken hgap) hread rfl
        have hstep := htakes.weight_le htaken hgap
        rw [weight_append]
        omega

/-- **Between double quotes.** The text stands there as it is, unless an escape does, and then more
stands there than what it stands for. -/
theorem Reading.finish?_spelled (hline : ∀ c ∈ cs, isBreak c = false)
    (hgap : r.gap.hasBreak = false) (hzero : r.pending = 0)
    (h : r.finish? place cs = some scalar) :
    (∃ inner, cs = inner ++ '"' :: scalar.next.rest ∧ (∀ c ∈ inner, c ≠ '"' ∧ c ≠ '\\') ∧
        scalar.text = held r.out r.gap ++ inner) ∨
      (∃ front back, cs = front ++ '\\' :: back ∧ '"' ∉ front) ∧
        weight scalar.text + weight scalar.next.rest < weight (held r.out r.gap) + weight cs := by
  induction hn : cs.length using Nat.strongRecOn generalizing r place cs with
  | _ n ih =>
      obtain ⟨-, ⟨rest, -, rfl, rfl⟩ | ⟨taken, r', rest, htakes, rfl, hread⟩⟩ :=
        Reading.finish?_cases h
      · exact .inl ⟨[], rfl, nofun, (List.append_nil _).symm⟩
      · obtain ⟨htaken, hrest⟩ := List.forall_mem_append.mp hline
        have hgap' := htakes.hasBreak htaken hgap
        rcases htakes.spelled htaken hgap hzero with
          ⟨c, rfl, hquote, hescape, hzero', hheld⟩ | ⟨⟨e, rfl⟩, hlt⟩
        · have hlength : rest.length < n := hn ▸ Nat.lt_succ_self rest.length
          rcases ih _ hlength hrest hgap' hzero' hread rfl with
            ⟨inner, rfl, hinner, htext⟩ | ⟨⟨front, back, rfl, hfront⟩, hlt⟩
          · refine .inl ⟨c :: inner, rfl, List.forall_mem_cons.mpr ⟨⟨hquote, hescape⟩, hinner⟩, ?_⟩
            rw [htext, hheld, List.append_assoc, List.singleton_append]
          · refine .inr ⟨⟨c :: front, back, rfl, ?_⟩, ?_⟩
            · exact fun hmem => (List.mem_cons.mp hmem).elim (fun h => hquote h.symm) hfront
            · rw [weight_append]
              rw [hheld, weight_append] at hlt
              omega
        · have hle := Reading.weight_finish? hrest hgap' hread
          refine .inr ⟨⟨[], e :: rest, rfl, nofun⟩, ?_⟩
          rw [weight_append]
          omega

/-! ## Plain scalars -/

/-- Whether a comment begins in a text, behind a blank or not. -/
def hasComment (isBehindBlank : Bool) : List Char → Bool
  | [] => false
  | c :: rest => (isBehindBlank && c = '#') || hasComment (isSpace c) rest

theorem column_after_pos (hbreak : isBreak c = false) (place : Place) :
    0 < (place.after c).column := by
  simp [Place.after, hbreak]

/-- A scalar that stands as it is in front of blanks, behind which reading has stopped. -/
structure Scalar.Stands (scalar : Scalar) (cs : List Char) : Prop where
  split : ∃ behind, cs = scalar.text ++ (behind ++ scalar.next.rest) ∧
    ∀ c ∈ behind, isSpace c = true
  last : ∀ c ∈ scalar.text.getLast?, isSpace c = false
  next : ∀ c ∈ scalar.next.rest.head?, isSpace c = false

theorem stands_of_stop {blanks : List Char} (hblanks : ∀ c ∈ blanks, isSpace c = true)
    (hout : ∀ c ∈ out.head?, isSpace c = false) (hhead : ∀ c ∈ cs.head?, isSpace c = false) :
    Scalar.Stands ⟨out.reverse, true, false, ⟨place, cs⟩⟩ (held out (.blanks blanks) ++ cs) := by
  refine ⟨⟨blanks.reverse, ?_, fun c hc => hblanks c (List.mem_reverse.mp hc)⟩, ?_, hhead⟩
  · simp [held, Gap.folded]
  · rwa [List.getLast?_reverse]

/-- **Without quotes.** The text stands there as it is, and then blanks down to where it ends. -/
theorem plainAfter_stands {blanks : List Char} (hline : ∀ c ∈ cs, isBreak c = false)
    (hpos : 0 < place.column) (hblanks : ∀ c ∈ blanks, isSpace c = true)
    (hout : ∀ c ∈ out.head?, isSpace c = false)
    (h : plainAfter false 1 out (.blanks blanks) place cs = some scalar) :
    scalar.Stands (held out (.blanks blanks) ++ cs) := by
  induction cs generalizing out blanks place with
  | nil =>
      cases h
      exact stands_of_stop hblanks hout nofun
  | cons c rest ih =>
      obtain ⟨hbreak, hline⟩ := List.forall_mem_cons.mp hline
      rw [plainAfter_of_line hbreak hpos rfl] at h
      have hpos' := column_after_pos hbreak place
      have hmove : held out (.blanks blanks) ++ c :: rest =
          held out (.blanks blanks) ++ [c] ++ rest := by simp
      rw [hmove]
      split at h
      · next hspace =>
          rw [← held_withBlank rfl]
          exact ih hline hpos' (List.forall_mem_cons.mpr ⟨hspace, hblanks⟩) hout h
      next hspace =>
      have hsolid : ∀ d ∈ (c :: rest).head?, isSpace d = false := by
        rintro _ ⟨⟩
        exact Bool.eq_false_iff.mpr hspace
      split at h
      · cases h
        rw [← hmove]
        exact stands_of_stop hblanks hout hsolid
      · rw [← held_none]
        exact ih hline hpos' nofun hsolid h

/-- A comment is what stops a plain scalar in front of a mark of a comment. -/
theorem hasComment_iff (hline : ∀ c ∈ cs, isBreak c = false) (hpos : 0 < place.column)
    (hgap : gap.hasBreak = false) (h : plainAfter false 1 out gap place cs = some scalar)
    (hhash : ∀ c ∈ scalar.next.rest.head?, c = '#') :
    hasComment gap.isSome cs = false ↔ scalar.next.rest = [] := by
  induction cs generalizing out gap place with
  | nil =>
      cases h
      exact ⟨fun _ => rfl, fun _ => rfl⟩
  | cons c rest ih =>
      obtain ⟨hbreak, hline⟩ := List.forall_mem_cons.mp hline
      rw [plainAfter_of_line hbreak hpos hgap] at h
      have hpos' := column_after_pos hbreak place
      rw [hasComment]
      split at h
      · next hspace =>
          have hne : c ≠ '#' := by rintro rfl; cases hspace
          have hsome : (gap.withBlank c).isSome = true := by cases gap <;> rfl
          have hrest := ih hline hpos' ((hasBreak_withBlank c gap).trans hgap) h
          rw [hsome] at hrest
          simpa [hne, hspace] using hrest
      next hspace =>
      split at h
      · next hstop =>
          cases h
          obtain rfl := hhash c rfl
          simp_all
      · next hstop =>
          have hrest := ih hline hpos' rfl h
          simp_all [Gap.isSome, Gap.none]

/-! ## Scalars of any kind -/

/-- Blanks are no scalar. -/
theorem scalar?_blanks {least : Nat} (h : ∀ c ∈ cs, isSpace c = true) :
    scalar? false least ⟨place, cs⟩ = none := by
  cases cs with
  | nil => rfl
  | cons c rest =>
      have hspace := h c List.mem_cons_self
      have hquotes : c ≠ '\'' ∧ c ≠ '"' := by constructor <;> rintro rfl <;> cases hspace
      rw [scalar?_plain hquotes.1 hquotes.2, plain?, startsPlain, hspace]
      rfl

/-- What is read as a scalar has no less weight than what it stands for. -/
theorem weight_scalar?_le (hline : ∀ c ∈ cs, isBreak c = false) (hpos : 0 < place.column)
    (h : scalar? false 1 ⟨place, cs⟩ = some scalar) :
    weight scalar.text + weight scalar.next.rest ≤ weight cs := by
  cases cs with
  | nil => cases h
  | cons c rest =>
      by_cases hsingle : c = '\''
      · subst hsingle
        obtain ⟨written, rfl, htext⟩ :=
          singleAfter_spelled (List.forall_mem_cons.mp hline).2 rfl h
        have htext : scalar.text = written := htext
        rw [htext, weight_cons, weight_append, weight_doubled, weight_cons '\'' scalar.next.rest]
        omega
      by_cases hdouble : c = '"'
      · subst hdouble
        have hle := Reading.weight_finish? (r := ⟨[], .none, 0, 0⟩)
          (List.forall_mem_cons.mp hline).2 rfl h
        have hempty : weight (held [] .none) = 0 := rfl
        rw [hempty] at hle
        rw [weight_cons]
        omega
      rw [scalar?_plain hsingle hdouble, plain?] at h
      split at h
      · have hstands : scalar.Stands (c :: rest) :=
          plainAfter_stands hline hpos (List.forall_mem_nil _) (by simp) h
        obtain ⟨behind, heq, -⟩ := hstands.split
        rw [heq, weight_append, weight_append]
        omega
      · cases h

end CodeFence.Yaml
