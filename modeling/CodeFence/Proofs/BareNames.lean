import Mathlib.Data.List.TakeWhile
import CodeFence.Proofs.SpelledScalars
import CodeFence.Proofs.TextCuts
import CodeFence.Theme.Lookup

/-!
# Names without quotes

A list of themes trims what stands behind the key of a name and takes off the double quotes
and then the single quotes at its ends.  It looks at nothing inside.  So it gives the scalar
that stands there exactly if this is written without an escape, a doubled quote or a comment,
and if white space and quotes at the ends are not part of the name.

* `dropEnds`, `HasEnds`, `exists_dropEnds` — taking characters off both ends;
* `bareName` — the name that a line gives, which is as heavy as the line;
* `bareName_eq_self_iff`, `bareName_single`, `bareName_double` — names without and with quotes;
* `IsLiteral`, `bareName_eq_iff` — names that are written as they are.
-/

namespace CodeFence.Theme

open Yaml (isSpace isBreak isSolid weight weight_append weight_cons weight_eq_zero)

variable {c : Char} {cs lead word trail : List Char} {p : Char → Bool} {mark : Char}

/-! ## Taking characters off both ends -/

/-- A text without the characters on either side that satisfy `p`. -/
def dropEnds (p : Char → Bool) (cs : List Char) : List Char :=
  ((cs.dropWhile p).reverse.dropWhile p).reverse

theorem trim_eq (cs : List Char) : Text.trim cs = dropEnds Text.isBlank cs := rfl

theorem dropAround_eq (mark : Char) (cs : List Char) :
    dropAround mark cs = dropEnds (· = mark) cs := rfl

/-- A text with no such character at either end. -/
structure HasEnds (p : Char → Bool) (cs : List Char) : Prop where
  head : ∀ c ∈ cs.head?, p c = false
  last : ∀ c ∈ cs.getLast?, p c = false

theorem dropWhile_eq_self (h : ∀ c ∈ cs.head?, p c = false) : cs.dropWhile p = cs := by
  cases cs with
  | nil => rfl
  | cons c cs => exact List.dropWhile_cons_of_neg (by simp [h c rfl])

theorem head_dropWhile (p : Char → Bool) (cs : List Char) :
    ∀ c ∈ (cs.dropWhile p).head?, p c = false := by
  intro c hc
  have hhead := List.head?_dropWhile_not p cs
  rw [Option.mem_def.mp hc] at hhead
  exact hhead

/-- The characters between two rows of such characters. -/
theorem dropEnds_around (h : HasEnds p word) (hlead : ∀ c ∈ lead, p c = true)
    (htrail : ∀ c ∈ trail, p c = true) : dropEnds p (lead ++ (word ++ trail)) = word := by
  have hreverse : ∀ c ∈ trail.reverse, p c = true :=
    fun c hc => htrail c (List.mem_reverse.mp hc)
  have hback : (word ++ trail).reverse.dropWhile p = word.reverse := by
    rw [List.reverse_append, List.dropWhile_append_of_pos hreverse, dropWhile_eq_self]
    rw [List.head?_reverse]
    exact h.last
  rw [dropEnds, List.dropWhile_append_of_pos hlead]
  cases word with
  | nil =>
      rw [List.nil_append, List.dropWhile_eq_nil_iff.mpr htrail]
      rfl
  | cons c word =>
      have hfront : (c :: word ++ trail).dropWhile p = c :: word ++ trail :=
        dropWhile_eq_self fun d hd => h.head d hd
      rw [hfront, hback, List.reverse_reverse]

theorem hasEnds_of_not_mem (h : mark ∉ cs) : HasEnds (· = mark) cs := by
  refine ⟨fun c hc => decide_eq_false ?_, fun c hc => decide_eq_false ?_⟩ <;> rintro rfl
  · exact h (List.mem_of_mem_head? hc)
  · exact h (List.mem_of_mem_getLast? hc)

/-- A text and what is taken off its right end. -/
theorem exists_dropTrail (p : Char → Bool) (cs : List Char) : ∃ word trail,
    cs = word ++ trail ∧ (∀ c ∈ word.getLast?, p c = false) ∧ ∀ c ∈ trail, p c = true := by
  refine ⟨(cs.reverse.dropWhile p).reverse, (cs.reverse.takeWhile p).reverse, ?_, ?_, ?_⟩
  · rw [← List.reverse_append, List.takeWhile_append_dropWhile, List.reverse_reverse]
  · rw [List.getLast?_reverse]
    exact head_dropWhile p cs.reverse
  · exact fun c hc => List.all_eq_true.mp List.all_takeWhile c (List.mem_reverse.mp hc)

/-- What is taken off both ends, and what is left. -/
theorem exists_dropEnds (p : Char → Bool) (cs : List Char) : ∃ lead word trail,
    cs = lead ++ (word ++ trail) ∧ HasEnds p word ∧ (∀ c ∈ lead, p c = true) ∧
    (∀ c ∈ trail, p c = true) := by
  obtain ⟨word, trail, hrest, hlast, htrail⟩ := exists_dropTrail p (cs.dropWhile p)
  refine ⟨cs.takeWhile p, word, trail, ?_, ⟨fun c hc => head_dropWhile p cs c ?_, hlast⟩,
    List.all_eq_true.mp List.all_takeWhile, htrail⟩
  · rw [← hrest, List.takeWhile_append_dropWhile]
  · rw [hrest, List.head?_append, Option.mem_def.mp hc]
    rfl

theorem dropEnds_eq_self_iff : dropEnds p cs = cs ↔ HasEnds p cs := by
  constructor
  · intro h
    obtain ⟨lead, word, trail, rfl, hword, hlead, htrail⟩ := exists_dropEnds p cs
    rw [dropEnds_around hword hlead htrail] at h
    exact h ▸ hword
  · intro h
    have haround : dropEnds p ([] ++ (cs ++ [])) = cs := dropEnds_around h nofun nofun
    rwa [List.nil_append, List.append_nil] at haround

theorem hasEnds_dropEnds (p : Char → Bool) (cs : List Char) : HasEnds p (dropEnds p cs) := by
  obtain ⟨lead, word, trail, rfl, hword, hlead, htrail⟩ := exists_dropEnds p cs
  rwa [dropEnds_around hword hlead htrail]

/-- Such characters around a text are taken off. -/
theorem dropEnds_append (hlead : ∀ c ∈ lead, p c = true) (htrail : ∀ c ∈ trail, p c = true)
    (word : List Char) : dropEnds p (lead ++ (word ++ trail)) = dropEnds p word := by
  obtain ⟨front, inner, back, rfl, hinner, hfront, hback⟩ := exists_dropEnds p word
  have hall : lead ++ (front ++ (inner ++ back) ++ trail) =
      (lead ++ front) ++ (inner ++ (back ++ trail)) := by simp
  rw [hall, dropEnds_around hinner hfront hback,
    dropEnds_around hinner (List.forall_mem_append.mpr ⟨hlead, hfront⟩)
      (List.forall_mem_append.mpr ⟨hback, htrail⟩)]

/-- Taking nothing off shows in the length. -/
theorem length_dropEnds (p : Char → Bool) (cs : List Char) :
    (dropEnds p cs).length ≤ cs.length ∧
      (cs.length ≤ (dropEnds p cs).length → dropEnds p cs = cs) := by
  obtain ⟨lead, word, trail, rfl, hword, hlead, htrail⟩ := exists_dropEnds p cs
  rw [dropEnds_around hword hlead htrail, List.length_append, List.length_append]
  refine ⟨by omega, fun hle => ?_⟩
  have hnone : lead.length = 0 ∧ trail.length = 0 := by omega
  simp [List.eq_nil_of_length_eq_zero hnone.1, List.eq_nil_of_length_eq_zero hnone.2]

/-! ## Names without quotes -/

/-- The name that a line gives: what stands behind the key, without quotes around it. -/
def bareName (value : List Char) : List Char :=
  dropAround '\'' (dropAround '"' (Text.trim value))

theorem weight_dropEnds (h : ∀ c, p c = true → isSolid c = false) (cs : List Char) :
    weight (dropEnds p cs) = weight cs := by
  obtain ⟨lead, word, trail, rfl, hword, hlead, htrail⟩ := exists_dropEnds p cs
  rw [dropEnds_around hword hlead htrail, weight_append, weight_append,
    weight_eq_zero fun c hc => h c (hlead c hc), weight_eq_zero fun c hc => h c (htrail c hc),
    Nat.zero_add, Nat.add_zero]

theorem weight_bareName (value : List Char) : weight (bareName value) = weight value := by
  rw [bareName, dropAround_eq, dropAround_eq, trim_eq, weight_dropEnds, weight_dropEnds,
    weight_dropEnds]
  · simp_all [isSolid]
  · simp_all [isSolid]
  · simp_all [isSolid]

/-- **A name that stays.** Nothing is taken off a text exactly if its ends are neither white space
nor quotes. -/
theorem bareName_eq_self_iff : bareName word = word ↔ HasEnds (!isSolid ·) word := by
  have hsolid (c : Char) : isSolid c = true ↔
      (Text.isBlank c = false ∧ decide (c = '"') = false) ∧ decide (c = '\'') = false := by
    simp [isSolid]
  rw [bareName, dropAround_eq, dropAround_eq, trim_eq]
  constructor
  · intro h
    -- None of the three steps makes a word longer, and one that keeps the length
    -- takes nothing away.
    have hlength := congrArg List.length h
    obtain ⟨hle, heq⟩ := length_dropEnds Text.isBlank word
    obtain ⟨hle', heq'⟩ := length_dropEnds (· = '"') (dropEnds Text.isBlank word)
    obtain ⟨hle'', heq''⟩ :=
      length_dropEnds (· = '\'') (dropEnds (· = '"') (dropEnds Text.isBlank word))
    have hblank := heq (by omega)
    rw [hblank] at hle' heq' hle'' heq'' hlength
    have hdouble := heq' (by omega)
    rw [hdouble] at hle'' heq'' hlength
    have hsingle := heq'' (by omega)
    rw [dropEnds_eq_self_iff] at hblank hdouble hsingle
    refine ⟨fun c hc => ?_, fun c hc => ?_⟩
    · rw [Bool.not_eq_false', hsolid]
      exact ⟨⟨hblank.head c hc, hdouble.head c hc⟩, hsingle.head c hc⟩
    · rw [Bool.not_eq_false', hsolid]
      exact ⟨⟨hblank.last c hc, hdouble.last c hc⟩, hsingle.last c hc⟩
  · rintro ⟨hhead, hlast⟩
    simp only [Bool.not_eq_false', hsolid] at hhead hlast
    have hblank : HasEnds Text.isBlank word :=
      ⟨fun c hc => (hhead c hc).1.1, fun c hc => (hlast c hc).1.1⟩
    have hdouble : HasEnds (· = '"') word :=
      ⟨fun c hc => (hhead c hc).1.2, fun c hc => (hlast c hc).1.2⟩
    have hsingle : HasEnds (· = '\'') word :=
      ⟨fun c hc => (hhead c hc).2, fun c hc => (hlast c hc).2⟩
    rw [dropEnds_eq_self_iff.mpr hblank, dropEnds_eq_self_iff.mpr hdouble,
      dropEnds_eq_self_iff.mpr hsingle]

/-- Blanks around a name are taken off. -/
theorem bareName_around (hlead : ∀ c ∈ lead, Text.isBlank c = true)
    (htrail : ∀ c ∈ trail, Text.isBlank c = true) (word : List Char) :
    bareName (lead ++ (word ++ trail)) = bareName word := by
  rw [bareName, bareName, trim_eq, trim_eq, dropEnds_append hlead htrail]

/-- A text between two marks has other ends only if the marks are others. -/
theorem dropEnds_marks (hmark : p mark = false) (word : List Char) :
    dropEnds p (mark :: (word ++ [mark])) = mark :: (word ++ [mark]) := by
  refine dropEnds_eq_self_iff.mpr ⟨?_, ?_⟩
  · rintro _ ⟨⟩
    exact hmark
  · rw [← List.cons_append, List.getLast?_concat]
    rintro _ ⟨⟩
    exact hmark

/-- The marks around a text are taken off. -/
theorem dropAround_marks (mark : Char) (word : List Char) :
    dropAround mark (mark :: (word ++ [mark])) = dropAround mark word := by
  show dropEnds (· = mark) ([mark] ++ (word ++ [mark])) = _
  exact dropEnds_append (by simp) (by simp) word

/-- A name between double quotes. -/
theorem bareName_double (h : '"' ∉ word) :
    bareName ('"' :: (word ++ ['"'])) = dropAround '\'' word := by
  rw [bareName, trim_eq, dropEnds_marks (by decide), dropAround_marks, dropAround_eq '"',
    dropEnds_eq_self_iff.mpr (hasEnds_of_not_mem h)]

/-- A name between single quotes. -/
theorem bareName_single (word : List Char) :
    bareName ('\'' :: (word ++ ['\''])) = dropAround '\'' word := by
  rw [bareName, trim_eq, dropEnds_marks (by decide), dropAround_eq '"', dropEnds_marks (by decide),
    dropAround_marks]

/-! ## Names that are written as they are -/

/-- How a name stands in a file when nothing but the quotes around it is to be taken off. -/
inductive IsLiteral : List Char → Prop
  | plain {word : List Char} (hends : HasEnds (!isSolid ·) word)
      (hcomment : Yaml.hasComment false word = false) : IsLiteral word
  | double {inner : List Char} (hinner : ∀ c ∈ inner, c ≠ '"' ∧ c ≠ '\\')
      (hends : HasEnds (· = '\'') inner) : IsLiteral ('"' :: (inner ++ ['"']))
  | single {inner : List Char} (hinner : '\'' ∉ inner) : IsLiteral ('\'' :: (inner ++ ['\'']))

variable {inner blanks more : List Char} {place : Yaml.Place} {scalar : Yaml.Scalar}

/-- The text in front of blanks. -/
theorem eq_of_append_blanks {front : List Char}
    (hword : ∀ c ∈ word.getLast?, p c = false) (hfront : ∀ c ∈ front.getLast?, p c = false)
    (htrail : ∀ c ∈ trail, p c = true) (hblanks : ∀ c ∈ blanks, p c = true)
    (h : word ++ trail = front ++ blanks) : word = front := by
  have hdrop {cs blanks : List Char} (hlast : ∀ c ∈ cs.getLast?, p c = false)
      (hblanks : ∀ c ∈ blanks, p c = true) : (cs ++ blanks).reverse.dropWhile p = cs.reverse := by
    rw [List.reverse_append, List.dropWhile_append_of_pos (by simpa using hblanks),
      dropWhile_eq_self (by rwa [List.head?_reverse])]
  rw [← List.reverse_inj, ← hdrop hword htrail, h, hdrop hfront hblanks]

theorem hasComment_append (htrail : ∀ c ∈ trail, isSpace c = true) (isBehindBlank : Bool)
    (word : List Char) :
    Yaml.hasComment isBehindBlank (word ++ trail) = Yaml.hasComment isBehindBlank word := by
  induction word generalizing isBehindBlank with
  | nil =>
      induction trail generalizing isBehindBlank with
      | nil => rfl
      | cons c trail ih =>
          obtain ⟨hspace, htrail⟩ := List.forall_mem_cons.mp htrail
          have hne : c ≠ '#' := by rintro rfl; cases hspace
          have hrest : Yaml.hasComment (isSpace c) trail = false := ih htrail _
          simp [Yaml.hasComment, hne, hrest]
  | cons c word ih => rw [List.cons_append, Yaml.hasComment, Yaml.hasComment, ih]

/-- A single-quoted name. -/
theorem bareName_eq_iff_single (htrail : ∀ c ∈ trail, isSpace c = true)
    (hlast : ∀ c ∈ ('\'' :: word).getLast?, isSpace c = false)
    (hline : ∀ c ∈ word ++ trail, isBreak c = false)
    (hread : Yaml.singleAfter [] .none place (word ++ trail) = some scalar)
    (hblanks : bareName ('\'' :: word) = scalar.text → ∀ c ∈ scalar.next.rest, isSpace c = true) :
    bareName ('\'' :: word) = scalar.text ↔ IsLiteral ('\'' :: word) := by
  obtain ⟨written, heq, htext⟩ := Yaml.singleAfter_spelled hline rfl hread
  have htext : scalar.text = written := htext
  rw [htext] at hblanks ⊢
  constructor
  · intro h
    -- The word ends where the quoted one ends: neither has a blank there, and behind
    -- both of them stand blanks only.
    have hword : '\'' :: word = '\'' :: (Yaml.doubled written ++ ['\'']) := by
      refine eq_of_append_blanks hlast ?_ htrail (hblanks h) (by simp [heq])
      rw [← List.cons_append, List.getLast?_concat]
      rintro _ ⟨⟩
      rfl
    rw [hword, bareName_single] at h
    -- The bare reading takes every quote off the ends, so the text has none there,
    -- and neither has the word between its quotes.
    have hends := hasEnds_dropEnds (· = '\'') (Yaml.doubled written)
    rw [← dropAround_eq, h] at hends
    have hdoubled : HasEnds (· = '\'') (Yaml.doubled written) := by
      refine ⟨?_, ?_⟩
      · rw [Yaml.head?_doubled]
        exact hends.head
      · rw [Yaml.getLast?_doubled]
        exact hends.last
    rw [dropAround_eq, dropEnds_eq_self_iff.mpr hdoubled] at h
    rw [hword, h]
    exact .single (Yaml.not_mem_of_doubled_eq h)
  · intro h
    cases h with
    | plain hends => cases hends.head '\'' rfl
    | @single inner hinner =>
        have htrailing : trail.head? ≠ some '\'' := by
          intro hhead
          cases htrail '\'' (List.mem_of_mem_head? hhead)
        rw [List.append_assoc] at heq
        obtain ⟨rfl, -⟩ := Yaml.eq_of_doubled hinner htrailing heq
        rw [bareName_single, dropAround_eq, dropEnds_eq_self_iff]
        exact hasEnds_of_not_mem hinner

/-- An escape would stand in front of the last quote or behind it. -/
theorem no_escape {front back : List Char} (hinner : ∀ c ∈ inner, c ≠ '"' ∧ c ≠ '\\')
    (hfront : '"' ∉ front) (h : inner ++ '"' :: trail = front ++ '\\' :: back) : False := by
  rcases List.append_eq_append_iff.mp h with ⟨beyond, rfl, hover⟩ | ⟨beyond, rfl, hover⟩
  · cases beyond with
    | nil => cases hover
    | cons c beyond =>
        obtain rfl := (List.cons.inj hover).1
        simp at hfront
  · cases beyond with
    | nil => cases hover
    | cons c beyond =>
        obtain rfl := (List.cons.inj hover).1
        exact absurd rfl (hinner '\\' (by simp)).2

/-- A double-quoted name. -/
theorem bareName_eq_iff_double (htrail : ∀ c ∈ trail, isSpace c = true)
    (hlast : ∀ c ∈ ('"' :: word).getLast?, isSpace c = false)
    (hline : ∀ c ∈ word ++ trail, isBreak c = false)
    (hread : Yaml.Reading.finish? ⟨[], .none, 0, 0⟩ place (word ++ trail) = some scalar)
    (hblanks : bareName ('"' :: word) = scalar.text → ∀ c ∈ scalar.next.rest, isSpace c = true) :
    bareName ('"' :: word) = scalar.text ↔ IsLiteral ('"' :: word) := by
  -- Either the text stands in the line as it is, or an escape does, and then the text
  -- weighs less than the line.
  rcases Yaml.Reading.finish?_spelled hline rfl rfl hread with
    ⟨inner, heq, hinner, htext⟩ | ⟨⟨front, back, heq, hfront⟩, hlt⟩
  · have htext : scalar.text = inner := htext
    have hquote : '"' ∉ inner := fun hmem => (hinner _ hmem).1 rfl
    rw [htext] at hblanks ⊢
    constructor
    · intro h
      have hword : '"' :: word = '"' :: (inner ++ ['"']) := by
        refine eq_of_append_blanks hlast ?_ htrail (hblanks h) (by simp [heq])
        rw [← List.cons_append, List.getLast?_concat]
        rintro _ ⟨⟩
        rfl
      rw [hword, bareName_double hquote, dropAround_eq, dropEnds_eq_self_iff] at h
      rw [hword]
      exact .double hinner h
    · intro h
      cases h with
      | plain hends => cases hends.head '"' rfl
      | @double written hwritten hends =>
          have hother : '"' ∉ written := fun hmem => (hwritten _ hmem).1 rfl
          rw [List.append_assoc] at heq
          have hcut := Text.cutAt?_append hquote scalar.next.rest
          rw [← heq] at hcut
          obtain ⟨rfl, -⟩ : written = inner ∧ _ :=
            Prod.mk.inj (Option.some.inj ((Text.cutAt?_append hother trail).symm.trans hcut))
          rw [bareName_double hother, dropAround_eq, dropEnds_eq_self_iff]
          exact hends
  · constructor
    · intro h
      -- The bare reading loses no character that has weight.
      have hweight := weight_bareName ('"' :: word)
      have hnone : weight trail = 0 :=
        weight_eq_zero fun c hc => Yaml.isSolid_of_isSpace (htrail c hc)
      have hempty : weight (Yaml.held [] .none) = 0 := rfl
      rw [h, weight_cons] at hweight
      rw [weight_append, hempty] at hlt
      omega
    · intro h
      cases h with
      | plain hends => cases hends.head '"' rfl
      | @double written hwritten hends =>
          rw [List.append_assoc] at heq
          exact (no_escape hwritten hfront heq).elim

/-- A name without quotes around it. -/
theorem bareName_eq_iff_plain (hsingle : c ≠ '\'') (hdouble : c ≠ '"')
    (htrail : ∀ c ∈ trail, isSpace c = true)
    (hlast : ∀ d ∈ (c :: word).getLast?, isSpace d = false)
    (hline : ∀ d ∈ c :: word ++ trail, isBreak d = false) (hpos : 0 < place.column)
    (hread : Yaml.plainAfter false 1 [] .none place (c :: word ++ trail) = some scalar)
    (hhash : ∀ c ∈ (scalar.next.rest.dropWhile isSpace).head?, c = '#')
    (hblanks : bareName (c :: word) = scalar.text → ∀ c ∈ scalar.next.rest, isSpace c = true) :
    bareName (c :: word) = scalar.text ↔ IsLiteral (c :: word) := by
  have hstands : scalar.Stands (c :: word ++ trail) :=
    Yaml.plainAfter_stands hline hpos (List.forall_mem_nil _) (by simp) hread
  obtain ⟨behind, heq, hbehind⟩ := hstands.split
  rw [dropWhile_eq_self hstands.next] at hhash
  have hcomment := Yaml.hasComment_iff hline hpos rfl hread hhash
  rw [hasComment_append htrail] at hcomment
  have hword (hnil : scalar.next.rest = []) : c :: word = scalar.text := by
    rw [hnil, List.append_nil] at heq
    exact eq_of_append_blanks hlast hstands.last htrail hbehind heq
  constructor
  · intro h
    -- What stands behind a plain scalar starts with no blank.
    have hnil : scalar.next.rest = [] := by
      cases hrest : scalar.next.rest with
      | nil => rfl
      | cons d rest =>
          have hspace := hblanks h d (by simp [hrest])
          rw [hstands.next d (by simp [hrest])] at hspace
          cases hspace
    rw [← hword hnil] at h
    exact .plain (bareName_eq_self_iff.mp h) (hcomment.mpr hnil)
  · intro h
    cases h with
    | plain hends hnone =>
        rw [← hword (hcomment.mp hnone)]
        exact bareName_eq_self_iff.mpr hends
    | double => exact absurd rfl hdouble
    | single => exact absurd rfl hsingle

/-- **A name as it is written.** A line gives the name that stands there for a reader of YAML exactly
if nothing but quotes is to be taken off. -/
theorem bareName_eq_iff (hlead : ∀ c ∈ lead, isSpace c = true)
    (htrail : ∀ c ∈ trail, isSpace c = true) (hword : HasEnds isSpace word)
    (hline : ∀ c ∈ word ++ trail, isBreak c = false) (hpos : 0 < place.column)
    (hread : Yaml.scalar? false 1 ⟨place, word ++ trail⟩ = some scalar)
    (hhash : ∀ c ∈ (scalar.next.rest.dropWhile isSpace).head?, c = '#') :
    bareName (lead ++ (word ++ trail)) = scalar.text ↔ IsLiteral word := by
  have hblank {cs : List Char} (h : ∀ c ∈ cs, isSpace c = true) :
      ∀ c ∈ cs, Text.isBlank c = true := fun c hc => Yaml.isBlank_of_isSpace (h c hc)
  rw [bareName_around (hblank hlead) (hblank htrail)]
  -- A name as heavy as the word leaves nothing with weight behind the scalar, and
  -- a comment has some.
  have hblanks (h : bareName word = scalar.text) : ∀ c ∈ scalar.next.rest, isSpace c = true := by
    have hle := Yaml.weight_scalar?_le hline hpos hread
    have hsame := weight_bareName word
    have hnone : weight trail = 0 :=
      weight_eq_zero fun c hc => Yaml.isSolid_of_isSpace (htrail c hc)
    rw [h] at hsame
    rw [weight_append] at hle
    have hrest := List.takeWhile_append_dropWhile (p := isSpace) (l := scalar.next.rest)
    cases hdrop : scalar.next.rest.dropWhile isSpace with
    | nil =>
        rw [hdrop, List.append_nil] at hrest
        exact hrest ▸ List.all_eq_true.mp List.all_takeWhile
    | cons c rest =>
        obtain rfl := hhash c (by simp [hdrop])
        have hcomment : weight ['#'] = 1 := rfl
        rw [← hrest, hdrop, weight_append, weight_cons '#' rest, hcomment] at hle
        omega
  cases word with
  | nil =>
      rw [List.nil_append, Yaml.scalar?_blanks htrail] at hread
      cases hread
  | cons c word =>
      by_cases hsingle : c = '\''
      · subst hsingle
        exact bareName_eq_iff_single htrail hword.last (List.forall_mem_cons.mp hline).2 hread hblanks
      by_cases hdouble : c = '"'
      · subst hdouble
        exact bareName_eq_iff_double htrail hword.last (List.forall_mem_cons.mp hline).2 hread hblanks
      rw [List.cons_append, Yaml.scalar?_plain hsingle hdouble, Yaml.plain?] at hread
      split at hread
      · exact bareName_eq_iff_plain hsingle hdouble htrail hword.last hline hpos hread hhash hblanks
      · cases hread

end CodeFence.Theme
