import CodeFence.Block.Inline
import CodeFence.Proofs.LanguageNames
import CodeFence.Proofs.TextCuts

/-!
# Forms of inline code

A code span names its language in one of three forms, each of them a pattern: the
name between delimiters, blanks, and a code on one line.  A pattern can often match
in several ways, since the blanks may count to the code as well.  But whichever way
it does, the same is read, because the code is trimmed.  The name ends where the
first other character stands, and what stands in front of it tells the forms apart;
so a text can be taken apart in one way only, and the order of the forms does not
matter.

* `Spells` — a text taken apart into a name and what is behind it;
* `Matches`, `spells_iff` — the same as a pattern, with the blanks set apart;
* `ofForm?_eq_some_iff` — what is read by one form;
* `Spells.unique` — a text is taken apart in one way;
* `parse?_exact` — what is read, and of which texts.
-/

namespace CodeFence

namespace InlineCode

/-- The delimiters of a form: what stands in front of the name, and what behind it. -/
abbrev Form := List Char × Char

variable {form form' : Form} {name name' rest rest' blanks code text : List Char}
  {v : InlineCode}

/-- A text in a form: a name between its delimiters, and a rest that has more than
blanks and, behind these, no newline. -/
structure Spells (form : Form) (name rest text : List Char) : Prop where
  text_eq : text = form.1 ++ name ++ form.2 :: rest
  name_ne : name ≠ []
  name_chars : ∀ c ∈ name, isNameChar c = true
  code_ne : Text.trimStart rest ≠ []
  one_line : '\n' ∉ Text.trimStart rest

/-- A text that the pattern of a form matches: a name between the delimiters, any
blanks, and any code of at least one character, none of which is a newline. -/
structure Matches (form : Form) (name blanks code text : List Char) : Prop where
  text_eq : text = form.1 ++ name ++ form.2 :: (blanks ++ code)
  name_ne : name ≠ []
  name_chars : ∀ c ∈ name, isNameChar c = true
  blank : ∀ c ∈ blanks, Text.isBlank c = true
  code_ne : code ≠ []
  one_line : '\n' ∉ code

/-- What a name and the text behind it are read as. -/
def ofParts (name rest : List Char) : InlineCode :=
  ⟨canonicalLanguage (String.ofList name), String.ofList (Text.trim rest)⟩

/-! ## Patterns -/

theorem trimStart_append (h : ∀ c ∈ blanks, Text.isBlank c = true) (code : List Char) :
    Text.trimStart (blanks ++ code) = Text.trimStart code :=
  List.dropWhile_append_of_pos h

/-- **However a pattern matches**, blanks in front of the code are not read. -/
theorem ofParts_append (h : ∀ c ∈ blanks, Text.isBlank c = true) (name code : List Char) :
    ofParts name (blanks ++ code) = ofParts name code := by
  rw [ofParts, Text.trim, trimStart_append h, ← Text.trim, ← ofParts]

theorem trimStart_ne_nil_iff : Text.trimStart code ≠ [] ↔ Text.trim code ≠ [] := by
  rw [ne_eq, ne_eq, Text.trim_eq_nil_iff, Text.trimStart, List.dropWhile_eq_nil_iff,
    List.all_eq_true]

/-- **A text is in a form** if the pattern matches it with a code that is not blank. -/
theorem spells_iff : Spells form name rest text ↔
    ∃ blanks code, rest = blanks ++ code ∧ Matches form name blanks code text ∧
      Text.trim code ≠ [] := by
  constructor
  · rintro ⟨rfl, hne, hchars, hcode, hline⟩
    have hsplit : rest = rest.takeWhile Text.isBlank ++ Text.trimStart rest :=
      List.takeWhile_append_dropWhile.symm
    refine ⟨_, _, hsplit, ⟨by rw [← hsplit], hne, hchars, ?_, hcode, hline⟩, ?_⟩
    · exact fun c hc => List.all_eq_true.mp List.all_takeWhile c hc
    · rw [← trimStart_ne_nil_iff, Text.trimStart, Text.trimStart, List.dropWhile_idempotent]
      exact hcode
  · rintro ⟨blanks, code, rfl, ⟨rfl, hne, hchars, hblank, -, hline⟩, hcode⟩
    refine ⟨rfl, hne, hchars, ?_, ?_⟩
    · rw [trimStart_append hblank]
      exact trimStart_ne_nil_iff.mpr hcode
    · rw [trimStart_append hblank]
      exact fun hmem => hline ((List.dropWhile_sublist Text.isBlank).mem hmem)

/-! ## One form -/

/-- A name ends at the first character that may not stand in one. -/
theorem span_name {c : Char} (hname : ∀ c ∈ name, isNameChar c = true)
    (hc : isNameChar c = false) (rest : List Char) :
    (name ++ c :: rest).takeWhile isNameChar = name ∧
      (name ++ c :: rest).dropWhile isNameChar = c :: rest :=
  span_append hname (by simpa using hc)

/-- **What is read by one form**, if the name cannot go on behind it. -/
theorem ofForm?_eq_some_iff (hclosing : isNameChar form.2 = false) :
    ofForm? form.1 form.2 text = some v ↔
      ∃ name rest, Spells form name rest text ∧ v = ofParts name rest := by
  constructor
  · intro h
    unfold ofForm? at h
    split at h
    · cases h
    · rename_i body hbody
      have htext := Text.after?_eq_some_iff.mp hbody
      dsimp only at h
      split at h
      · rename_i c rest hrest
        split at h
        · rename_i hcheck
          simp only [Bool.and_eq_true, decide_eq_true_eq, Bool.not_eq_true',
            List.isEmpty_eq_false_iff] at hcheck
          obtain ⟨⟨⟨rfl, hne⟩, hcode⟩, hline⟩ := hcheck
          have hsplit : body = body.takeWhile isNameChar ++ form.2 :: rest := by
            rw [← hrest, List.takeWhile_append_dropWhile]
          refine ⟨_, rest, ⟨?_, hne, ?_, hcode, ?_⟩, (Option.some.inj h).symm⟩
          · rw [htext, List.append_assoc, ← hsplit]
          · exact fun c hc => List.all_eq_true.mp List.all_takeWhile c hc
          · rw [← List.contains_iff_mem, hline]
            exact Bool.false_ne_true
        · cases h
      · cases h
  · rintro ⟨name, rest, ⟨rfl, hne, hchars, hcode, hline⟩, rfl⟩
    have hbody : Text.after? form.1 (form.1 ++ name ++ form.2 :: rest) =
        some (name ++ form.2 :: rest) :=
      Text.after?_eq_some_iff.mpr (List.append_assoc ..)
    obtain ⟨htake, hdrop⟩ := span_name hchars hclosing rest
    unfold ofForm?
    rw [hbody]
    dsimp only
    rw [htake, hdrop]
    exact if_pos (by simp [hne, hcode, hline])

/-! ## The forms together -/

theorem isNameChar_closing (hform : form ∈ delimiters) : isNameChar form.2 = false := by
  have hall : ∀ form ∈ delimiters, isNameChar form.2 = false := by decide
  exact hall form hform

/-- What stands in front of the name are the characters that may not stand in one. -/
theorem Spells.opening_eq (hform : form ∈ delimiters) (h : Spells form name rest text) :
    form.1 = text.takeWhile fun c => !isNameChar c := by
  have hopening : ∀ form ∈ delimiters, (form.1.all fun c => !isNameChar c) = true := by decide
  obtain ⟨c, more, rfl⟩ := List.exists_cons_of_ne_nil h.name_ne
  have hc := h.name_chars c List.mem_cons_self
  have hstop : ∀ a ∈ (c :: more ++ form.2 :: rest).head?, (!isNameChar a) = false := by simp [hc]
  rw [h.text_eq, List.append_assoc]
  exact (span_append (List.all_eq_true.mp (hopening form hform)) hstop).1.symm

/-- **A text is taken apart in one way.** -/
theorem Spells.unique (hform : form ∈ delimiters) (hform' : form' ∈ delimiters)
    (h : Spells form name rest text) (h' : Spells form' name' rest' text) :
    form = form' ∧ name = name' ∧ rest = rest' := by
  have hdistinct : ∀ form ∈ delimiters, ∀ form' ∈ delimiters, form.1 = form'.1 → form = form' := by
    decide
  obtain rfl : form = form' := hdistinct form hform form' hform'
    ((h.opening_eq hform).trans (h'.opening_eq hform').symm)
  have htexts : name ++ form.2 :: rest = name' ++ form.2 :: rest' := by
    have heq := h.text_eq.symm.trans h'.text_eq
    rw [List.append_assoc, List.append_assoc] at heq
    exact List.append_cancel_left heq
  have hclosing := isNameChar_closing hform
  obtain ⟨htake, hdrop⟩ := span_name h.name_chars hclosing rest
  obtain ⟨htake', hdrop'⟩ := span_name h'.name_chars hclosing rest'
  rw [htexts] at htake hdrop
  refine ⟨rfl, htake.symm.trans htake', ?_⟩
  exact (List.cons.inj (hdrop.symm.trans hdrop')).2

/-- What two forms read in a text is the same. -/
theorem ofForm?_agree {v' : InlineCode} (hform : form ∈ delimiters) (hform' : form' ∈ delimiters)
    (h : ofForm? form.1 form.2 text = some v) (h' : ofForm? form'.1 form'.2 text = some v') :
    v = v' := by
  obtain ⟨name, rest, hspells, rfl⟩ := (ofForm?_eq_some_iff (isNameChar_closing hform)).mp h
  obtain ⟨name', rest', hspells', rfl⟩ := (ofForm?_eq_some_iff (isNameChar_closing hform')).mp h'
  obtain ⟨-, rfl, rfl⟩ := hspells.unique hform hform' hspells'
  rfl

/-- **The forms in any order** read what some form reads. -/
theorem findSome?_forms {forms : List Form} (hforms : forms.Perm delimiters) :
    (forms.findSome? fun form => ofForm? form.1 form.2 text) = some v ↔
      ∃ form ∈ delimiters, ofForm? form.1 form.2 text = some v := by
  constructor
  · intro h
    obtain ⟨form, hform, hread⟩ := List.exists_of_findSome?_eq_some h
    exact ⟨form, hforms.mem_iff.mp hform, hread⟩
  · rintro ⟨form, hform, hread⟩
    have hsome : (forms.findSome? fun form => ofForm? form.1 form.2 text).isSome = true :=
      List.findSome?_isSome_iff.mpr ⟨form, hforms.mem_iff.mpr hform, Option.isSome_of_mem hread⟩
    obtain ⟨first, hfirst⟩ := Option.isSome_iff_exists.mp hsome
    obtain ⟨form', hform', hread'⟩ := List.exists_of_findSome?_eq_some hfirst
    rw [hfirst, ofForm?_agree (hforms.mem_iff.mp hform') hform hread' hread]

/-- What is read of a text is what it spells in some form. -/
theorem parse?_eq_some_iff {t : String} : parse? t = some v ↔
    ∃ form ∈ delimiters, ∃ name rest, Spells form name rest t.toList ∧ v = ofParts name rest := by
  refine (findSome?_forms (List.Perm.refl delimiters)).trans (exists_congr fun form => ?_)
  exact and_congr_right fun hform => ofForm?_eq_some_iff (isNameChar_closing hform)

/-- **What is read as inline code.**  A text is read exactly if it is a name between
the delimiters of a form and a rest that, without the blanks in front, is not empty
and has no newline; then it is read as the canonical form of the name and the rest
without the blanks around it.  The pattern of a form matches just these texts with a
code that is not blank, and whichever way it does, that code is what is read.  A text
is taken apart in at most one way, and so the forms may be tried in any order. -/
theorem parse?_exact (t : String) :
    (∀ v, parse? t = some v ↔ ∃ form ∈ delimiters, ∃ name rest,
      Spells form name rest t.toList ∧
        v = ⟨canonicalLanguage (String.ofList name), String.ofList (Text.trim rest)⟩) ∧
    (∀ v, parse? t = some v ↔ ∃ form ∈ delimiters, ∃ name blanks code,
      Matches form name blanks code t.toList ∧ Text.trim code ≠ [] ∧
        v = ⟨canonicalLanguage (String.ofList name), String.ofList (Text.trim code)⟩) ∧
    (∀ form ∈ delimiters, ∀ form' ∈ delimiters, ∀ name rest name' rest',
      Spells form name rest t.toList → Spells form' name' rest' t.toList →
        form = form' ∧ name = name' ∧ rest = rest') ∧
    ∀ forms : List Form, forms.Perm delimiters →
      (forms.findSome? fun form => ofForm? form.1 form.2 t.toList) = parse? t := by
  refine ⟨fun v => parse?_eq_some_iff, fun v => ?_, ?_, fun forms hforms => ?_⟩
  · refine parse?_eq_some_iff.trans (exists_congr fun form => and_congr_right fun _ => ?_)
    refine exists_congr fun name => ?_
    constructor
    · rintro ⟨rest, hspells, rfl⟩
      obtain ⟨blanks, code, rfl, hmatches, hcode⟩ := spells_iff.mp hspells
      exact ⟨blanks, code, hmatches, hcode, ofParts_append hmatches.blank name code⟩
    · rintro ⟨blanks, code, hmatches, hcode, rfl⟩
      refine ⟨blanks ++ code, spells_iff.mpr ⟨blanks, code, rfl, hmatches, hcode⟩, ?_⟩
      exact (ofParts_append hmatches.blank name code).symm
  · intro form hform form' hform' name rest name' rest' h h'
    exact h.unique hform hform' h'
  · refine Option.ext fun v => ?_
    exact (findSome?_forms hforms).trans (findSome?_forms (List.Perm.refl delimiters)).symm

/-- A newline in front of the code is a blank like others, and one behind it is not
passed over. -/
example :
    parse? "[py]\n x = 1 " = some ⟨"python", "x = 1"⟩ ∧ parse? "[py] x = 1\n" = none := by
  decide +kernel

end InlineCode

end CodeFence
