import CodeFence.Proofs.QuotedScalars

/-!
# Scalars with more text behind

A text whose last line has been ended may go on with a key.  A scalar in it is read as
before, unless it is a plain one that could go on with the key.  And a scalar that is whole
on its line is read the same whatever stands on the lines below, if none of these could go
on with it.

* `EndsLine` — a text, down from a place, that leaves no line begun;
* `PlainMove`, `plainAfter_cons` — what a reader of plain scalars does at a character;
* `isWordStart`, `scalar?_append` — a scalar is read the same with a key behind the text;
* `scalar?_used` — a scalar takes some characters from the front;
* `goesOn`, `IsBelow` — the lines below, on which no scalar goes on;
* `scalar?_line` — a scalar is read the same with such lines below;
* `scalar?_text_ne_nil` — a plain scalar is not empty.
-/

namespace CodeFence.Yaml

variable {c : Char} {cs more rest used out : List Char} {place place' : Place} {gap : Gap}
  {quote : Char} {read : Place → List Char → Option Scalar}

/-! ## Texts that leave no line begun -/

/-- The last line of a text has been ended. -/
def EndsLine (place : Place) (cs : List Char) : Prop :=
  match cs.getLast? with
  | none => place.column = 0
  | some c => isBreak c = true

theorem EndsLine.after (h : EndsLine place (c :: rest)) : EndsLine (place.after c) rest := by
  cases rest with
  | nil =>
      have hbreak : isBreak c = true := h
      simp [EndsLine, Place.after, hbreak]
  | cons d rest => simpa [EndsLine, List.getLast?_cons] using h

theorem EndsLine.behind (h : EndsLine place (used ++ rest)) :
    EndsLine (place.behind used) rest := by
  induction used generalizing place with
  | nil => exact h
  | cons c used ih => exact ih h.after

/-- The break at the end. -/
theorem EndsLine.exists_break (h : EndsLine place cs) (hcs : cs ≠ []) :
    ∃ c ∈ cs, isBreak c = true := by
  rw [EndsLine, List.getLast?_eq_some_getLast hcs] at h
  exact ⟨cs.getLast hcs, List.getLast_mem hcs, h⟩

theorem EndsLine.ne_nil (h : EndsLine place (c :: rest)) (hbreak : ¬ isBreak c = true) :
    rest ≠ [] := by
  rintro rfl
  exact hbreak h

/-- Characters that are no line breaks come before the end. -/
theorem EndsLine.advance (h : EndsLine place (used ++ rest)) (hused : used ≠ [])
    (hbreak : ∀ c ∈ used, isBreak c = false) (place' : Place) :
    rest ≠ [] ∧ EndsLine place' rest := by
  cases rest with
  | nil =>
      rw [List.append_nil] at h
      obtain ⟨c, hc, hyes⟩ := h.exists_break hused
      exact absurd (hbreak c hc) (by simp [hyes])
  | cons c rest =>
      exact ⟨List.cons_ne_nil c rest, by simpa [EndsLine, List.getLast?_cons] using h.behind⟩

theorem EndsLine.isDocumentMark_append (h : EndsLine place cs) (hcs : cs ≠ [])
    (more : List Char) : isDocumentMark (cs ++ more) = isDocumentMark cs := by
  obtain ⟨c, hc, hbreak⟩ := h.exists_break hcs
  refine Yaml.isDocumentMark_append hc ?_ ?_ more <;> rintro rfl <;> cases hbreak

theorem head?_append (hcs : cs ≠ []) (more : List Char) : (cs ++ more).head? = cs.head? := by
  cases cs with
  | nil => exact absurd rfl hcs
  | cons c cs => rfl

theorem endsToken_append (hcs : cs ≠ []) (more : List Char) :
    endsToken (cs ++ more) = endsToken cs := by
  cases cs with
  | nil => exact absurd rfl hcs
  | cons c cs => rfl

/-! ## One character of a plain scalar -/

theorem hasBreak_withBlank (c : Char) (gap : Gap) : (gap.withBlank c).hasBreak = gap.hasBreak := by
  cases gap <;> rfl

theorem hasBreak_withBreak (c : Char) (gap : Gap) : (gap.withBreak c).hasBreak = true := by
  cases gap <;> rfl

/-- What a reader of plain scalars takes the next character for. -/
inductive PlainMove where
  /-- The scalar has ended in front of it. -/
  | stop
  | blank
  | lineBreak
  | text

/-- What it takes the next character for, if it can go on at all. -/
def plainMove? (inFlow : Bool) (least : Nat) (gap : Gap) (place : Place) (c : Char)
    (rest : List Char) : Option PlainMove :=
  if isSpace c then
    if c = '\t' && gap.hasBreak && place.column < least then none else some .blank
  else if isBreak c then some .lineBreak
  else if gap.isSome && c = '#' then some .stop
  else if gap.hasBreak && !inFlow && place.column < least then some .stop
  else if place.column = 0 && isDocumentMark (c :: rest) then some .stop
  else if c = ':' && inFlow && (rest.head?).any (fun d => isFlowMark d || d = '?') then none
  else if (c = ':' && endsToken rest) || (inFlow && isFlowMark c) then some .stop
  else some .text

/-- The scalar that is read after such a move. -/
def PlainMove.scalar? (inFlow : Bool) (least : Nat) (out : List Char) (gap : Gap) (place : Place)
    (c : Char) (rest : List Char) : PlainMove → Option Scalar
  | .stop => some ⟨out.reverse, true, gap.hasBreak, ⟨place, c :: rest⟩⟩
  | .blank => plainAfter inFlow least out (gap.withBlank c) (place.after c) rest
  | .lineBreak => plainAfter inFlow least out (gap.withBreak c) (place.after c) rest
  | .text => plainAfter inFlow least (c :: (gap.folded ++ out)) .none (place.after c) rest

theorem plainAfter_cons {inFlow : Bool} {least : Nat} :
    plainAfter inFlow least out gap place (c :: rest) =
      (plainMove? inFlow least gap place c rest).bind
        (PlainMove.scalar? inFlow least out gap place c rest) := by
  rw [plainAfter, plainMove?]
  repeat' split
  all_goals rfl

theorem plainMove?_of_isBreak {inFlow : Bool} {least : Nat} (h : isBreak c = true) :
    plainMove? inFlow least gap place c rest = some .lineBreak := by
  rw [plainMove?, if_neg (by simp [isSpace_of_isBreak h]), if_pos h]

/-- The next character is taken for the same with more text behind. -/
theorem plainMove?_append {inFlow : Bool} {least : Nat} (hends : EndsLine place (c :: rest))
    (more : List Char) :
    plainMove? inFlow least gap place c (rest ++ more) =
      plainMove? inFlow least gap place c rest := by
  by_cases hbreak : isBreak c = true
  · rw [plainMove?_of_isBreak hbreak, plainMove?_of_isBreak hbreak]
  · have hrest := hends.ne_nil hbreak
    have hmark := hends.isDocumentMark_append (List.cons_ne_nil c rest) more
    rw [List.cons_append] at hmark
    simp only [plainMove?, hmark, head?_append hrest, endsToken_append hrest]

/-- On one line only the end of a key and a comment stop a plain scalar. -/
theorem plainAfter_of_line (hbreak : isBreak c = false) (hpos : 0 < place.column)
    (hgap : gap.hasBreak = false) :
    plainAfter false 1 out gap place (c :: rest) =
      if isSpace c then plainAfter false 1 out (gap.withBlank c) (place.after c) rest
      else if (gap.isSome && c = '#') || (c = ':' && endsToken rest) then
        some ⟨out.reverse, true, false, ⟨place, c :: rest⟩⟩
      else plainAfter false 1 (c :: (gap.folded ++ out)) .none (place.after c) rest := by
  have hcol : (decide (place.column = 0) && isDocumentMark (c :: rest)) = false := by
    simp [Nat.ne_of_gt hpos]
  rw [plainAfter]
  simp only [hbreak, hgap, hcol, Bool.false_and, Bool.and_false, Bool.or_false,
    Bool.false_eq_true, if_false]
  split
  · rfl
  · cases gap.isSome && decide (c = '#') <;> rfl

/-! ## Plain scalars -/

/-- A character that may be the first one of a key. -/
def isWordStart (c : Char) : Bool :=
  !isSpace c && !isBreak c && c ≠ '#' && c ≠ '\ufeff'

/-- A scalar behind which the text's last line still ends, or has just ended. -/
structure Scalar.Ends (scalar : Scalar) : Prop where
  endsLine : EndsLine scalar.next.toPlace scalar.next.rest
  atEnd : scalar.next.rest = [] → scalar.endsLine = true

theorem plainAfter_append {inFlow : Bool} {least : Nat} {scalar : Scalar}
    (h : plainAfter inFlow least out gap place cs = some scalar) (hends : EndsLine place cs)
    (hgap : cs = [] → gap.hasBreak = true)
    (hstop : scalar.next.rest = [] → inFlow = false ∧ 0 < least)
    (hc : isWordStart c = true) (more : List Char) :
    scalar.Ends ∧ plainAfter inFlow least out gap place (cs ++ c :: more) =
      some { scalar with next := ⟨scalar.next.toPlace, scalar.next.rest ++ c :: more⟩ } := by
  induction cs generalizing out gap place with
  | nil =>
      cases h
      obtain ⟨hflow, hleast⟩ := hstop rfl
      have hcol : place.column = 0 := hends
      have hbreak := hgap rfl
      refine ⟨⟨hends, fun _ => hbreak⟩, ?_⟩
      simp only [isWordStart, Bool.and_eq_true, Bool.not_eq_true', decide_eq_true_eq] at hc
      simp_all [plainAfter]
  | cons d rest ih =>
      rw [List.cons_append, plainAfter_cons, plainMove?_append hends]
      rw [plainAfter_cons] at h
      obtain ⟨move, hmove, h⟩ := Option.bind_eq_some_iff.mp h
      have hrest (hother : move ≠ .lineBreak) : rest ≠ [] := by
        refine hends.ne_nil fun hbreak => ?_
        rw [plainMove?_of_isBreak hbreak] at hmove
        exact hother (Option.some.inj hmove).symm
      rw [hmove, Option.bind_some]
      cases move with
      | stop =>
          cases h
          exact ⟨⟨hends, fun hnil => absurd hnil (List.cons_ne_nil d rest)⟩, rfl⟩
      | blank => exact ih h hends.after fun hnil => absurd hnil (hrest (by simp))
      | lineBreak => exact ih h hends.after fun _ => hasBreak_withBreak d gap
      | text => exact ih h hends.after fun hnil => absurd hnil (hrest (by simp))

/-! ## Scalars of any kind -/

/-- A quoted scalar ends on the text's last line but before its end. -/
theorem ReadsQuoted.append {scalar : Scalar} (hquoted : ReadsQuoted quote read place cs)
    (hquote : isBreak quote = false) (h : read place cs = some scalar) (hends : EndsLine place cs)
    (more : List Char) :
    scalar.Ends ∧ read place (cs ++ more) =
      some { scalar with next := ⟨scalar.next.toPlace, scalar.next.rest ++ more⟩ } := by
  obtain ⟨hclosed, -, used, hused, rfl, hplace, hmore⟩ := hquoted scalar h
  have hrest : scalar.next.rest ≠ [] := by
    intro hnil
    have hbreak : isBreak quote = true := by simpa [EndsLine, hnil, hused] using hends
    exact Bool.false_ne_true (hquote.symm.trans hbreak)
  refine ⟨⟨hplace ▸ hends.behind, fun hnil => absurd hnil hrest⟩, ?_⟩
  rw [List.append_assoc, hplace]
  refine hmore place _ rfl fun hsingle => ?_
  rw [head?_append hrest]
  exact hclosed hsingle

theorem startsPlain_append {inFlow : Bool} (hends : EndsLine place cs)
    (h : startsPlain inFlow cs = true) (more : List Char) :
    startsPlain inFlow (cs ++ more) = true := by
  cases cs with
  | nil => cases h
  | cons d rest =>
      have hbreak : ¬ isBreak d = true := by
        intro hbreak
        simp [startsPlain, hbreak] at h
      rw [List.cons_append, startsPlain, endsToken_append (hends.ne_nil hbreak)]
      exact h

theorem scalar?_plain {inFlow : Bool} {least : Nat} (hsingle : c ≠ '\'') (hdouble : c ≠ '"') :
    scalar? inFlow least ⟨place, c :: rest⟩ = plain? inFlow least ⟨place, c :: rest⟩ := by
  rw [scalar?]
  split
  · next heq => exact absurd (List.cons.inj heq).1 hsingle
  · next heq => exact absurd (List.cons.inj heq).1 hdouble
  · rfl

/-- **More text behind.** What a scalar is read as, and where it ends, is the same with a key on a
line behind the text, unless a plain scalar might go on there. -/
theorem scalar?_append {inFlow : Bool} {least : Nat} {scalar : Scalar} {cur : Cursor}
    (h : scalar? inFlow least cur = some scalar) (hends : EndsLine cur.toPlace cur.rest)
    (hstop : scalar.next.rest = [] → inFlow = false ∧ 0 < least)
    (hc : isWordStart c = true) (more : List Char) :
    scalar.Ends ∧ scalar? inFlow least { cur with rest := cur.rest ++ c :: more } =
      some { scalar with next := ⟨scalar.next.toPlace, scalar.next.rest ++ c :: more⟩ } := by
  obtain ⟨place, cs⟩ := cur
  cases cs with
  | nil => cases h
  | cons d rest =>
      by_cases hsingle : d = '\''
      · subst hsingle
        exact ReadsQuoted.append (readsQuoted_singleAfter [] .none _ rest) rfl h hends.after _
      by_cases hdouble : d = '"'
      · subst hdouble
        exact ReadsQuoted.append (readsQuoted_finish? ⟨[], .none, 0, 0⟩ _ rest) rfl h hends.after _
      rw [scalar?_plain hsingle hdouble, plain?] at h
      split at h
      · next hplain =>
          obtain ⟨hends', hread⟩ := plainAfter_append h hends nofun hstop hc more
          refine ⟨hends', (scalar?_plain hsingle hdouble).trans ?_⟩
          exact (if_pos (startsPlain_append hends hplain (c :: more))).trans hread
      · cases h

/-- Reading a plain scalar stops behind some characters. -/
theorem plainAfter_used {inFlow : Bool} {least : Nat} {scalar : Scalar}
    (h : plainAfter inFlow least out gap place cs = some scalar) :
    ∃ used, cs = used ++ scalar.next.rest ∧ scalar.next.toPlace = place.behind used := by
  have hstep {c : Char} {rest : List Char} {place : Place}
      (hrest : ∃ used, rest = used ++ scalar.next.rest ∧
        scalar.next.toPlace = (place.after c).behind used) :
      ∃ used, c :: rest = used ++ scalar.next.rest ∧
        scalar.next.toPlace = place.behind used := by
    obtain ⟨used, rfl, hplace⟩ := hrest
    exact ⟨c :: used, rfl, hplace⟩
  induction cs generalizing out gap place with
  | nil => cases h; exact ⟨[], rfl, rfl⟩
  | cons c rest ih =>
      rw [plainAfter_cons] at h
      obtain ⟨move, -, h⟩ := Option.bind_eq_some_iff.mp h
      cases move with
      | stop => cases h; exact ⟨[], rfl, rfl⟩
      | blank => exact hstep (ih h)
      | lineBreak => exact hstep (ih h)
      | text => exact hstep (ih h)

/-- Reading a scalar stops behind some characters. -/
theorem scalar?_used {inFlow : Bool} {least : Nat} {scalar : Scalar}
    (h : scalar? inFlow least ⟨place, cs⟩ = some scalar) :
    ∃ used, cs = used ++ scalar.next.rest ∧ scalar.next.toPlace = place.behind used := by
  cases cs with
  | nil => cases h
  | cons c rest =>
      by_cases hsingle : c = '\''
      · subst hsingle
        obtain ⟨-, -, used, -, rfl, hplace, -⟩ := readsQuoted_singleAfter [] .none _ rest scalar h
        exact ⟨_ :: used, rfl, hplace⟩
      by_cases hdouble : c = '"'
      · subst hdouble
        obtain ⟨-, -, used, -, rfl, hplace, -⟩ :=
          readsQuoted_finish? ⟨[], .none, 0, 0⟩ _ rest scalar h
        exact ⟨_ :: used, rfl, hplace⟩
      rw [scalar?_plain hsingle hdouble, plain?] at h
      split at h
      · exact plainAfter_used h
      · cases h

/-- What has been read of a plain scalar is a part of it. -/
theorem plainAfter_ne_nil {inFlow : Bool} {least : Nat} {scalar : Scalar} (hout : out ≠ [])
    (h : plainAfter inFlow least out gap place cs = some scalar) : scalar.text ≠ [] := by
  induction cs generalizing out gap place with
  | nil =>
      cases h
      exact List.reverse_ne_nil_iff.mpr hout
  | cons c rest ih =>
      rw [plainAfter_cons] at h
      obtain ⟨move, -, h⟩ := Option.bind_eq_some_iff.mp h
      cases move with
      | stop =>
          cases h
          exact List.reverse_ne_nil_iff.mpr hout
      | blank => exact ih hout h
      | lineBreak => exact ih hout h
      | text => exact ih (List.cons_ne_nil c _) h

/-- The first character of a plain scalar is taken for a part of it. -/
theorem eq_text_of_startsPlain {inFlow : Bool} {least : Nat} {move : PlainMove}
    (hstart : startsPlain inFlow (c :: rest) = true)
    (hmark : atMark place (c :: rest) = false)
    (h : plainMove? inFlow least .none place c rest = some move) : move = .text := by
  have hfirst : isSpace c = false ∧ isBreak c = false ∧ isFlowMark c = false ∧
      (c = ':' → endsToken rest = false) := by
    rw [startsPlain] at hstart
    split at hstart
    · cases hstart
    · next hnone =>
        simp only [Bool.or_eq_true, not_or, Bool.not_eq_true] at hnone
        refine ⟨hnone.1.1.1, hnone.1.1.2, hnone.1.2, ?_⟩
        rintro rfl
        simp_all
  obtain ⟨hspace, hbreak, hflow, hcolon⟩ := hfirst
  have hstop : (decide (c = ':') && endsToken rest) = false := by
    cases hends : endsToken rest with
    | false => exact Bool.and_false _
    | true =>
        have hne : c ≠ ':' := fun heq => by simp [hcolon heq] at hends
        simp [hne]
  unfold atMark at hmark
  unfold plainMove? at h
  rw [hspace, hbreak, hflow, hmark, hstop] at h
  simp only [Gap.none, Gap.isSome, Gap.hasBreak, Bool.false_and, Bool.and_false, Bool.or_false,
    Bool.false_eq_true, if_false] at h
  split at h
  · cases h
  · exact (Option.some.inj h).symm

/-- **A plain scalar is not empty**: where the mark of a document is out of the question, its first
character belongs to it. -/
theorem scalar?_text_ne_nil {inFlow : Bool} {least : Nat} {scalar : Scalar}
    (h : scalar? inFlow least ⟨place, c :: rest⟩ = some scalar)
    (hmark : atMark place (c :: rest) = false)
    (hplain : scalar.isPlain = true) : scalar.text ≠ [] := by
  by_cases hsingle : c = '\''
  · subst hsingle
    obtain ⟨-, hquoted, -⟩ := readsQuoted_singleAfter [] .none _ rest scalar h
    cases hplain.symm.trans hquoted
  by_cases hdouble : c = '"'
  · subst hdouble
    obtain ⟨-, hquoted, -⟩ := readsQuoted_finish? ⟨[], .none, 0, 0⟩ _ rest scalar h
    cases hplain.symm.trans hquoted
  rw [scalar?_plain hsingle hdouble, plain?] at h
  split at h
  · next hstart =>
      rw [plainAfter_cons] at h
      obtain ⟨move, hmove, h⟩ := Option.bind_eq_some_iff.mp h
      rw [eq_text_of_startsPlain hstart hmark hmove] at h
      exact plainAfter_ne_nil (List.cons_ne_nil c _) h
  · cases h

/-! ## Scalars on one line -/

/-- Whether the first line that is neither blank nor a comment is indented, so that a scalar may
go on there. -/
def goesOn (isIndented : Bool) : List Char → Bool
  | [] => false
  | c :: rest =>
    if isBreak c then goesOn false rest
    else if isSpace c then goesOn true rest
    else isIndented && c ≠ '#'

/-- A text behind a line, on which no scalar of the line goes on. -/
structure IsBelow (post : List Char) : Prop where
  head_break : ∀ c ∈ post.head?, isBreak c = true
  goesOn : goesOn false post = false

theorem plainAfter_below {scalar : Scalar} (hgap : gap.hasBreak = true)
    (hgo : goesOn (place.column ≠ 0) cs = false)
    (h : plainAfter false 1 out gap place cs = some scalar) :
    scalar.text = out.reverse ∧ scalar.isPlain = true := by
  induction cs generalizing gap place with
  | nil => cases h; exact ⟨rfl, rfl⟩
  | cons c rest ih =>
      rw [goesOn] at hgo
      rw [plainAfter] at h
      by_cases hbreak : isBreak c = true
      · rw [if_neg (by simp [isSpace_of_isBreak hbreak]), if_pos hbreak] at h
        rw [if_pos hbreak] at hgo
        exact ih (hasBreak_withBreak c gap) (by simpa [Place.after, hbreak] using hgo) h
      rw [if_neg hbreak] at hgo
      split at h
      · next hspace =>
          rw [if_pos hspace] at hgo
          split at h
          · cases h
          · refine ih ((hasBreak_withBlank c gap).trans hgap) ?_ h
            simpa [Place.after, hbreak] using hgo
      · next hspace =>
          rw [if_neg hspace] at hgo
          -- What stands below goes on with the scalar only if it is indented and no comment.
          have hstop : c = '#' ∨ place.column = 0 := by
            by_cases hcol : place.column = 0
            · exact .inr hcol
            · simpa [hcol] using hgo
          have hsome : gap.isSome = true := by cases gap <;> simp_all [Gap.hasBreak, Gap.isSome]
          rcases hstop with hcomment | hcol
          · simp only [hsome, hcomment, decide_true, Bool.and_self, if_true] at h
            cases h
            exact ⟨rfl, rfl⟩
          · simp only [hgap, hcol, Nat.zero_lt_one, decide_true, Bool.not_false, Bool.and_self,
              if_true, ite_self] at h
            cases h
            exact ⟨rfl, rfl⟩

theorem IsBelow.endsToken {post : List Char} (h : IsBelow post) : endsToken post = true := by
  cases post with
  | nil => rfl
  | cons c post => simp [Yaml.endsToken, h.head_break c rfl]

theorem IsBelow.endsToken_append {post : List Char} (h : IsBelow post) (cs : List Char) :
    Yaml.endsToken (cs ++ post) = Yaml.endsToken cs := by
  cases cs with
  | nil => exact h.endsToken
  | cons c cs => rfl

/-- Reads a plain scalar alone on its line and in its text. -/
theorem plainAfter_line {post : List Char} {alone scalar : Scalar} (hbelow : IsBelow post)
    (hline : ∀ c ∈ cs, isBreak c = false) (hgap : gap.hasBreak = false)
    (hpos : 0 < place.column) (hcol : place'.column = place.column)
    (halone : plainAfter false 1 out gap place cs = some alone)
    (h : plainAfter false 1 out gap place' (cs ++ post) = some scalar) :
    scalar.text = alone.text ∧ scalar.isPlain = alone.isPlain := by
  induction cs generalizing out gap place place' with
  | nil =>
      cases halone
      cases post with
      | nil => cases h; exact ⟨rfl, rfl⟩
      | cons c post =>
          -- The line is used up, and the text below starts with its break.
          have hbreak : isBreak c = true := hbelow.head_break c rfl
          have hspace : ¬ isSpace c = true := by simp [isSpace_of_isBreak hbreak]
          rw [List.nil_append, plainAfter, if_neg hspace, if_pos hbreak] at h
          refine plainAfter_below (hasBreak_withBreak c gap) ?_ h
          have hgo := hbelow.goesOn
          rw [goesOn, if_pos hbreak] at hgo
          simpa [Place.after, hbreak] using hgo
  | cons c rest ih =>
      obtain ⟨hbreak, hrest⟩ := List.forall_mem_cons.mp hline
      have hpos' : 0 < (place.after c).column := by simp [Place.after, hbreak]
      have hcol' := Place.column_after hcol c
      rw [plainAfter_of_line hbreak hpos hgap] at halone
      rw [List.cons_append, plainAfter_of_line hbreak (hcol ▸ hpos) hgap,
        hbelow.endsToken_append] at h
      split at h
      · next hspace =>
          rw [if_pos hspace] at halone
          exact ih hrest ((hasBreak_withBlank c gap).trans hgap) hpos' hcol' halone h
      next hspace =>
      rw [if_neg hspace] at halone
      split at h
      · next hstop =>
          rw [if_pos hstop] at halone
          cases halone
          cases h
          exact ⟨rfl, rfl⟩
      · next hstop =>
          rw [if_neg hstop] at halone
          exact ih hrest rfl hpos' hcol' halone h

/-- Reads a quoted scalar alone on its line and in its text. -/
theorem ReadsQuoted.line {post : List Char} {alone scalar : Scalar} (hbelow : IsBelow post)
    (hquoted : ReadsQuoted quote read place cs) (hcol : place'.column = place.column)
    (halone : read place cs = some alone) (h : read place' (cs ++ post) = some scalar) :
    scalar.text = alone.text ∧ scalar.isPlain = alone.isPlain := by
  obtain ⟨hclosed, -, used, -, rfl, -, hmore⟩ := hquoted alone halone
  have hpost : IsClosed quote (alone.next.rest ++ post) := by
    intro hsingle
    cases hrest : alone.next.rest with
    | nil =>
        intro hhead
        cases hbelow.head_break _ hhead
    | cons d rest =>
        rw [hrest] at hclosed
        exact hclosed hsingle
  rw [List.append_assoc, hmore place' _ hcol hpost] at h
  cases h
  exact ⟨rfl, rfl⟩

/-- **More lines below.** A scalar that is whole on its line is read the same in its text. -/
theorem scalar?_line {post : List Char} {alone scalar : Scalar} (hbelow : IsBelow post)
    (hline : ∀ c ∈ cs, isBreak c = false) (hpos : 0 < place.column)
    (hcol : place'.column = place.column) (halone : scalar? false 1 ⟨place, cs⟩ = some alone)
    (h : scalar? false 1 ⟨place', cs ++ post⟩ = some scalar) :
    scalar.text = alone.text ∧ scalar.isPlain = alone.isPlain := by
  cases cs with
  | nil => cases halone
  | cons c rest =>
      have hcol' := Place.column_after hcol c
      by_cases hsingle : c = '\''
      · subst hsingle
        exact ReadsQuoted.line hbelow (readsQuoted_singleAfter [] .none _ rest) hcol' halone h
      by_cases hdouble : c = '"'
      · subst hdouble
        exact ReadsQuoted.line hbelow (readsQuoted_finish? ⟨[], .none, 0, 0⟩ _ rest) hcol' halone h
      rw [List.cons_append, scalar?_plain hsingle hdouble, plain?] at h
      rw [scalar?_plain hsingle hdouble, plain?] at halone
      split at halone
      · split at h
        · exact plainAfter_line hbelow hline rfl hpos hcol halone h
        · cases h
      · cases halone

end CodeFence.Yaml
