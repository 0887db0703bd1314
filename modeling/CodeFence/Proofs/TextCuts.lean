import CodeFence.Text.Split

/-!
# Where a text is cut

What is on either side of a cut does not depend on how it was found.  A text
that is split at a separator has its last piece behind the last separator; a
text that is cut at something is cut where this occurs first.

* `span_append` — a list is cut in front of the first element that fails a test;
* `splitWhere_append_cons`, `splitAt_cases` — the pieces of a text on the two
  sides of a separator, and of the last one;
* `cutAt?_append`, `before?_eq_some_iff` — a text is cut at the first separator,
  or in front of its end;
* `words_append_blank` — a blank keeps the words on its two sides apart;
* `Avoids` — no occurrence of a text begins in another one, whatever comes next,
  which can be computed;
* `cutAround?_of_avoids` — so the first one begins behind it;
* `cutAround?_singleton_eq_some_iff` — a text cut at the first occurrence of a
  character.
-/

namespace CodeFence

/-- **A list is cut** in front of the first element that fails a test. -/
theorem span_append {α : Type} {p : α → Bool} {front back : List α}
    (hfront : ∀ a ∈ front, p a = true) (hback : ∀ a ∈ back.head?, p a = false) :
    (front ++ back).takeWhile p = front ∧ (front ++ back).dropWhile p = back := by
  rw [List.takeWhile_append_of_pos hfront, List.dropWhile_append_of_pos hfront]
  cases back with
  | nil => simp
  | cons a rest =>
      have ha : p a = false := hback a rfl
      simp [ha]

end CodeFence

namespace CodeFence.Text

/-! ## Splitting -/

/-- A separator cuts a text into what stands before and what stands behind. -/
theorem splitWhere_append_cons {isSep : Char → Bool} {c : Char} (hc : isSep c = true)
    (front back : List Char) :
    splitWhere isSep (front ++ c :: back) = splitWhere isSep front ++ splitWhere isSep back := by
  induction front with
  | nil =>
      cases hback : splitWhere isSep back with
      | nil => exact absurd hback (splitWhere_ne_nil isSep back)
      | cons piece pieces =>
          rw [splitWhere] at hback
          simp [splitWhere, hback, consPiece, hc]
  | cons d rest ih =>
      cases hrest : splitWhere isSep rest with
      | nil => exact absurd hrest (splitWhere_ne_nil isSep rest)
      | cons piece pieces =>
          rw [hrest] at ih
          unfold splitWhere at ih hrest ⊢
          rw [List.cons_append, List.foldr_cons, List.foldr_cons, ih, hrest]
          by_cases hd : isSep d = true
          · simp [consPiece, hd]
          · simp [consPiece, hd]

theorem splitAt_append_sep (sep : Char) (cs ds : List Char) :
    splitAt sep (cs ++ sep :: ds) = splitAt sep cs ++ splitAt sep ds :=
  @splitWhere_append_cons (· == sep) sep (beq_self_eq_true sep) cs ds

theorem splitWhere_of_none {isSep : Char → Bool} {cs : List Char}
    (h : ∀ c ∈ cs, isSep c = false) : splitWhere isSep cs = [cs] := by
  induction cs with
  | nil => rfl
  | cons c rest ih =>
      have hc := h c List.mem_cons_self
      have hrest := ih fun d hd => h d (List.mem_cons_of_mem c hd)
      unfold splitWhere at hrest ⊢
      rw [List.foldr_cons, hrest]
      simp [consPiece, hc]

/-- **The last piece of a text** is all of it, or what stands behind the last
separator. -/
theorem splitAt_cases (sep : Char) (cs : List Char) :
    (sep ∉ cs ∧ splitAt sep cs = [cs]) ∨
      ∃ front last, sep ∉ last ∧ cs = front ++ sep :: last ∧
        splitAt sep cs = splitAt sep front ++ [last] := by
  by_cases hmem : sep ∈ cs
  · obtain ⟨back, before, hreverse, hback⟩ :=
      List.eq_append_cons_of_mem (List.mem_reverse.mpr hmem)
    have hcs : cs = before.reverse ++ sep :: back.reverse := by
      simpa using congrArg List.reverse hreverse
    have hlast : sep ∉ back.reverse := by simpa using hback
    refine Or.inr ⟨before.reverse, back.reverse, hlast, hcs, ?_⟩
    rw [hcs, splitAt_append_sep, splitAt_of_not_mem hlast]
  · exact Or.inl ⟨hmem, splitAt_of_not_mem hmem⟩

/-- What is added to a text is added to its last piece. -/
theorem splitAt_append {sep : Char} {cs ds : List Char} {front : List (List Char)}
    {last : List Char} (hcs : splitAt sep cs = front ++ [last]) (hds : sep ∉ ds) :
    splitAt sep (cs ++ ds) = front ++ [last ++ ds] := by
  rcases splitAt_cases sep cs with ⟨hmem, hpieces⟩ | ⟨before, behind, hmem, rfl, hpieces⟩ <;>
    rw [hpieces] at hcs
  · have hone : [] ++ [cs] = front ++ [last] := hcs
    obtain ⟨rfl, hlast⟩ := List.append_inj' hone rfl
    obtain rfl : cs = last := by simpa using hlast
    exact splitAt_of_not_mem (by simp [hmem, hds])
  · obtain ⟨rfl, hlast⟩ := List.append_inj' hcs rfl
    obtain rfl : behind = last := by simpa using hlast
    have hlonger : sep ∉ behind ++ ds := by simp [hmem, hds]
    rw [List.append_assoc, List.cons_append, splitAt_append_sep, splitAt_of_not_mem hlonger]

/-! ## Cutting -/

/-- The two parts and the separator between them make up the whole. -/
theorem cutAt?_eq {sep : Char} {cs front back : List Char}
    (h : cutAt? sep cs = some (front, back)) : cs = front ++ sep :: back := by
  induction cs generalizing front with
  | nil => cases h
  | cons c rest ih =>
      rw [cutAt?] at h
      split at h
      · rename_i hc
        obtain ⟨rfl, rfl⟩ : [] = front ∧ rest = back := by simpa using h
        rw [hc, List.nil_append]
      · obtain ⟨⟨before, after⟩, hcut, heq⟩ := Option.map_eq_some_iff.mp h
        obtain ⟨rfl, rfl⟩ : c :: before = front ∧ after = back := by simpa using heq
        rw [ih hcut, List.cons_append]

/-- A text is cut at the first separator. -/
theorem cutAt?_append {sep : Char} {front : List Char} (h : sep ∉ front) (back : List Char) :
    cutAt? sep (front ++ sep :: back) = some (front, back) := by
  induction front with
  | nil => simp [cutAt?]
  | cons c rest ih =>
      rw [List.mem_cons, not_or] at h
      rw [List.cons_append, cutAt?, if_neg (Ne.symm h.1), ih h.2]
      rfl

/-- A text is cut in front of its end. -/
theorem before?_eq_some_iff {tail text front : List Char} :
    before? tail text = some front ↔ text = front ++ tail := by
  rw [before?, Option.map_eq_some_iff]
  constructor
  · rintro ⟨rest, hrest, rfl⟩
    have htext := congrArg List.reverse (after?_eq_some_iff.mp hrest)
    simpa using htext
  · rintro rfl
    refine ⟨front.reverse, ?_, List.reverse_reverse front⟩
    rw [after?_eq_some_iff, List.reverse_append]

theorem before?_eq_none_iff {tail text : List Char} :
    before? tail text = none ↔ ¬ tail <:+ text := by
  simp only [Option.eq_none_iff_forall_ne_some, ne_eq, before?_eq_some_iff, List.IsSuffix,
    not_exists, @eq_comm _ _ text]

/-! ## Words -/

/-- A blank keeps words apart. -/
theorem words_append_blank (front back : List Char) :
    words (front ++ ' ' :: back) = words front ++ words back := by
  have hblank : isBlank ' ' = true := by decide
  unfold words
  rw [splitWhere_append_cons hblank, List.filter_append]

/-- A text without blanks is one word. -/
theorem words_of_no_blank {cs : List Char} (hne : cs ≠ [])
    (h : ∀ c ∈ cs, isBlank c = false) : words cs = [cs] := by
  unfold words
  rw [splitWhere_of_none h]
  simp [hne]

/-! ## Looking for a text -/

/-- No occurrence of `needle` begins in a text, whatever follows it. -/
def Avoids (needle : List Char) : List Char → Prop
  | [] => True
  | c :: cs => (∀ after, after? needle (c :: cs ++ after) = none) ∧ Avoids needle cs

variable {needle as bs : List Char}

/-- Two texts of which neither is a beginning of the other differ somewhere, so
that whatever follows the one, the other does not begin there. -/
theorem after?_append_eq_none_iff :
    (∀ after, after? needle (as ++ after) = none) ↔ ¬ needle <+: as ∧ ¬ as <+: needle := by
  constructor
  · intro h
    refine ⟨?_, ?_⟩
    · rintro ⟨rest, rfl⟩
      have hfound : after? needle (needle ++ rest) = some rest := after?_eq_some_iff.mpr rfl
      have hnone := h []
      rw [List.append_nil, hfound] at hnone
      cases hnone
    · rintro ⟨rest, rfl⟩
      have hfound : after? (as ++ rest) (as ++ rest) = some [] :=
        after?_eq_some_iff.mpr (List.append_nil _).symm
      rw [h rest] at hfound
      cases hfound
  · rintro ⟨hlong, hshort⟩ after
    cases hfound : after? needle (as ++ after) with
    | none => rfl
    | some rest =>
        rcases List.prefix_or_prefix_of_prefix (List.prefix_append as after)
          ⟨rest, (after?_eq_some_iff.mp hfound).symm⟩ with h | h
        · exact absurd h hshort
        · exact absurd h hlong

/-- Whether a text is avoided can be computed. -/
instance decidableAvoids (needle : List Char) : DecidablePred (Avoids needle)
  | [] => isTrue trivial
  | c :: cs =>
    have := decidableAvoids needle cs
    decidable_of_iff
      ((¬ needle <+: c :: cs ∧ ¬ c :: cs <+: needle) ∧ Avoids needle cs)
      (and_congr after?_append_eq_none_iff.symm Iff.rfl)

theorem Avoids.append (ha : Avoids needle as) (hb : Avoids needle bs) :
    Avoids needle (as ++ bs) := by
  induction as with
  | nil => exact hb
  | cons a as ih =>
      refine ⟨?_, ih ha.2⟩
      intro after
      have hhead := ha.1 (bs ++ after)
      simpa using hhead

/-- Where its first character does not occur, a text does not begin. -/
theorem avoids_of_not_mem {c : Char} (h : c ∉ as) : Avoids (c :: needle) as := by
  induction as with
  | nil => trivial
  | cons a as ih =>
      have hne : c ≠ a := fun heq => h (heq ▸ List.mem_cons_self)
      exact ⟨fun after => if_neg hne, ih fun hmem => h (List.mem_cons_of_mem _ hmem)⟩

/-- The search goes on behind a text that it cannot end in. -/
theorem cutAroundAfter_append (h : Avoids needle as) (before bs : List Char) :
    cutAroundAfter needle before (as ++ bs) = cutAroundAfter needle (as.reverse ++ before) bs := by
  induction as generalizing before with
  | nil => rfl
  | cons a as ih =>
      have hhead := h.1 bs
      rw [List.cons_append] at hhead ⊢
      rw [cutAroundAfter, hhead]
      dsimp only
      rw [ih h.2, List.reverse_cons, List.append_assoc]
      rfl

theorem cutAroundAfter_self (before bs : List Char) (hne : needle ≠ []) :
    cutAroundAfter needle before (needle ++ bs) = some (before.reverse, bs) := by
  obtain ⟨c, cs, rfl⟩ := List.exists_cons_of_ne_nil hne
  have hafter : after? (c :: cs) (c :: cs ++ bs) = some bs := after?_eq_some_iff.mpr rfl
  rw [List.cons_append] at hafter ⊢
  rw [cutAroundAfter, hafter]

/-- **The first occurrence** behind a text that avoids it. -/
theorem cutAround?_of_avoids (h : Avoids needle as) (hne : needle ≠ []) (bs : List Char) :
    cutAround? needle (as ++ needle ++ bs) = some (as, bs) := by
  rw [cutAround?, List.append_assoc, cutAroundAfter_append h, cutAroundAfter_self _ _ hne]
  simp

theorem after?_eq_none_iff {text : List Char} : after? needle text = none ↔ ¬ needle <+: text := by
  constructor
  · rintro h ⟨rest, htext⟩
    rw [after?_eq_some_iff.mpr htext.symm] at h
    cases h
  · intro h
    cases hfound : after? needle text with
    | none => rfl
    | some rest => exact absurd ⟨rest, (after?_eq_some_iff.mp hfound).symm⟩ h

/-- **The search finds** what occurs in the text. -/
theorem isSome_cutAroundAfter_iff {before text : List Char} :
    (cutAroundAfter needle before text).isSome = true ↔ needle <:+: text := by
  induction text generalizing before with
  | nil => cases needle <;> simp [cutAroundAfter]
  | cons c rest ih =>
      rw [cutAroundAfter, List.infix_cons_iff]
      cases hfound : after? needle (c :: rest) with
      | some after =>
          have hprefix : needle <+: c :: rest :=
            ⟨after, (after?_eq_some_iff.mp hfound).symm⟩
          exact iff_of_true rfl (Or.inl hprefix)
      | none =>
          dsimp only
          rw [ih, or_iff_right (after?_eq_none_iff.mp hfound)]

theorem contains_iff {text : List Char} : contains needle text = true ↔ needle <:+: text :=
  isSome_cutAroundAfter_iff

/-- A text is cut at a character where this occurs first. -/
theorem cutAround?_singleton_eq_some_iff {c : Char} {text front back : List Char} :
    cutAround? [c] text = some (front, back) ↔ text = front ++ c :: back ∧ c ∉ front := by
  constructor
  · intro h
    have htext : text = front ++ c :: back := by
      rw [cutAround?_eq h, List.append_assoc, List.singleton_append]
    have hmem : c ∈ text := by
      rw [htext]
      exact List.mem_append_right _ List.mem_cons_self
    obtain ⟨before, after, hfirst, hbefore⟩ := List.eq_append_cons_of_mem hmem
    have hcut := cutAround?_of_avoids (avoids_of_not_mem hbefore) (List.cons_ne_nil c []) after
    rw [List.append_assoc, List.singleton_append, ← hfirst, h] at hcut
    obtain ⟨rfl, -⟩ := Prod.mk.inj (Option.some.inj hcut)
    exact ⟨htext, hbefore⟩
  · rintro ⟨rfl, hfront⟩
    have hcut := cutAround?_of_avoids (avoids_of_not_mem hfront) (List.cons_ne_nil c []) back
    rwa [List.append_assoc, List.singleton_append] at hcut

theorem cutAround?_singleton_eq_none_iff {c : Char} {text : List Char} :
    cutAround? [c] text = none ↔ c ∉ text := by
  constructor
  · intro h hmem
    obtain ⟨front, back, htext, hfront⟩ := List.eq_append_cons_of_mem hmem
    rw [cutAround?_singleton_eq_some_iff.mpr ⟨htext, hfront⟩] at h
    cases h
  · intro h
    cases hcut : cutAround? [c] text with
    | none => rfl
    | some parts =>
        have htext := (cutAround?_singleton_eq_some_iff.mp hcut).1
        rw [htext] at h
        exact absurd (List.mem_append_right _ List.mem_cons_self) h

end CodeFence.Text
