import CodeFence.Markup.Escape

/-!
# Entities

What was escaped holds no character that opens or closes anything, and it reads
back as what it was.  Reading goes from one ampersand to the next: it decodes an
entity that begins there, keeps any other ampersand, and never looks back.

* `delimiter_not_mem_escape` — no bracket and no quote in what was escaped;
* `entity_induction` — a text begins with an entity, or with a character that
  begins none;
* `unescapeChars_append` — an ampersand cuts a text in two that are read apart;
* `Decodes` — the search for ampersands, step by step;
* `unescape_exact` — each entity is decoded where it stands, and nothing else.
-/

namespace CodeFence.Markup

/-- The entities that are decoded, and what they stand for. -/
def entities : List (String × Char) :=
  [("&amp;", '&'), ("&lt;", '<'), ("&gt;", '>'), ("&quot;", '"'), ("&#39;", '\'')]

/-- The characters that open or close a tag or an attribute value. -/
def delimiters : List Char := ['<', '>', '"', '\'']

/-- An entity is an ampersand and a name without one. -/
theorem entity_eq_cons {e : String × Char} (he : e ∈ entities) :
    ∃ name, '&' ∉ name ∧ e.1.toList = '&' :: name := by
  have hall : ∀ e ∈ entities, e.1.toList.head? = some '&' ∧ '&' ∉ e.1.toList.tail := by decide
  obtain ⟨hhead, htail⟩ := hall e he
  obtain ⟨name, hname⟩ := List.head?_eq_some_iff.mp hhead
  rw [hname] at htail
  exact ⟨name, htail, hname⟩

/-- A character is written as its entity, or else as itself. -/
theorem escapeChar_cases (c : Char) :
    (∃ e ∈ entities, e.2 = c ∧ escapeChar c = e.1.toList) ∨
      c ∉ entities.map Prod.snd ∧ escapeChar c = [c] := by
  unfold escapeChar
  split
  · exact Or.inl ⟨("&amp;", '&'), by decide, rfl, by simp⟩
  · exact Or.inl ⟨("&lt;", '<'), by decide, rfl, by simp⟩
  · exact Or.inl ⟨("&gt;", '>'), by decide, rfl, by simp⟩
  · exact Or.inl ⟨("&quot;", '"'), by decide, rfl, by simp⟩
  · exact Or.inl ⟨("&#39;", '\''), by decide, rfl, by simp⟩
  · exact Or.inr ⟨by simp_all [entities], rfl⟩

/-- Brackets and quotes are never written as they stand. -/
theorem delimiter_not_mem_escapeChars {c : Char} (hc : c ∈ delimiters) (cs : List Char) :
    c ∉ escapeChars cs := by
  have hnone : ∀ e ∈ entities, ∀ c ∈ delimiters, c ∉ e.1.toList := by simp [entities, delimiters]
  have hnamed : ∀ c ∈ delimiters, c ∈ entities.map Prod.snd := by simp [entities, delimiters]
  intro hmem
  rw [escapeChars, List.mem_flatMap] at hmem
  obtain ⟨d, -, hd⟩ := hmem
  rcases escapeChar_cases d with ⟨e, he, -, hentity⟩ | ⟨hplain, hself⟩
  · rw [hentity] at hd
    exact hnone e he c hc hd
  · rw [hself, List.mem_singleton] at hd
    exact hplain (hd ▸ hnamed c hc)

theorem delimiter_not_mem_escape {c : Char} (hc : c ∈ delimiters) (s : String) :
    c ∉ (escape s).toList := by
  rw [escape, String.toList_ofList]
  exact delimiter_not_mem_escapeChars hc s.toList

/-! ## Reading -/

/-- What has been decoded stays as it is. -/
theorem unescapeOnto_append (done front cs : List Char) :
    unescapeOnto (done ++ front) cs = front.reverse ++ unescapeOnto done cs := by
  fun_induction unescapeOnto done cs with
  | case1 done rest ih => simpa [unescapeOnto] using ih
  | case2 done rest ih => simpa [unescapeOnto] using ih
  | case3 done rest ih => simpa [unescapeOnto] using ih
  | case4 done rest ih => simpa [unescapeOnto] using ih
  | case5 done rest ih => simpa [unescapeOnto] using ih
  | case6 done c rest hamp hlt hgt hquot happ ih =>
      rw [unescapeOnto.eq_6 _ _ _ hamp hlt hgt hquot happ]
      exact ih
  | case7 done => simp [unescapeOnto]

theorem unescapeOnto_singleton (c : Char) (cs : List Char) :
    unescapeOnto [c] cs = c :: unescapeChars cs :=
  unescapeOnto_append [] [c] cs

@[simp] theorem unescapeChars_nil : unescapeChars [] = [] := rfl

/-- An entity is decoded where a text begins with it. -/
theorem unescapeChars_entity {e : String × Char} (he : e ∈ entities) (rest : List Char) :
    unescapeChars (e.1.toList ++ rest) = e.2 :: unescapeChars rest := by
  rw [← unescapeOnto_singleton]
  simp only [entities, List.mem_cons, List.not_mem_nil, or_false] at he
  rcases he with rfl | rfl | rfl | rfl | rfl <;> simp [unescapeChars, unescapeOnto]

/-- A character with which no entity begins is copied. -/
theorem unescapeChars_cons {c : Char} {rest : List Char}
    (h : ∀ e ∈ entities, ¬ e.1.toList <+: c :: rest) :
    unescapeChars (c :: rest) = c :: unescapeChars rest := by
  rw [← unescapeOnto_singleton, unescapeChars]
  refine unescapeOnto.eq_6 [] c rest ?_ ?_ ?_ ?_ ?_ <;> rintro tail rfl rfl
  · exact h ("&amp;", '&') (by decide) ⟨tail, by simp⟩
  · exact h ("&lt;", '<') (by decide) ⟨tail, by simp⟩
  · exact h ("&gt;", '>') (by decide) ⟨tail, by simp⟩
  · exact h ("&quot;", '"') (by decide) ⟨tail, by simp⟩
  · exact h ("&#39;", '\'') (by decide) ⟨tail, by simp⟩

/-- **How a text begins**: with an entity, or with a character that begins
none. -/
@[elab_as_elim]
theorem entity_induction {motive : List Char → Prop} (nil : motive [])
    (entity : ∀ e ∈ entities, ∀ rest, motive rest → motive (e.1.toList ++ rest))
    (char : ∀ c rest, (∀ e ∈ entities, ¬ e.1.toList <+: c :: rest) → motive rest →
      motive (c :: rest)) (cs : List Char) : motive cs := by
  induction hlength : cs.length using Nat.strongRecOn generalizing cs with
  | ind n ih =>
    cases cs with
    | nil => exact nil
    | cons c rest =>
        by_cases hentity : ∃ e ∈ entities, e.1.toList <+: c :: rest
        · obtain ⟨e, he, tail, htail⟩ := hentity
          have hshorter : tail.length < n := by
            obtain ⟨name, -, hname⟩ := entity_eq_cons he
            have hsum := congrArg List.length htail
            simp only [hname, List.length_append, List.length_cons] at hsum hlength
            omega
          rw [← htail]
          exact entity e he tail (ih _ hshorter tail rfl)
        · have hshorter : rest.length < n := by
            rw [← hlength]
            exact Nat.lt_succ_self _
          refine char c rest ?_ (ih _ hshorter rest rfl)
          intro e he hprefix
          exact hentity ⟨e, he, hprefix⟩

/-- An entity holds no ampersand but its first character, so none goes on behind
an ampersand. -/
theorem entity_prefix_of_append {e : String × Char} (he : e ∈ entities) {c : Char}
    {front back : List Char} (h : e.1.toList <+: c :: (front ++ '&' :: back)) :
    e.1.toList <+: c :: front := by
  obtain ⟨name, hamp, hname⟩ := entity_eq_cons he
  obtain ⟨behind, hbehind⟩ := h
  rw [hname] at hbehind ⊢
  obtain ⟨rfl, hrest⟩ := List.cons.inj hbehind
  refine (List.prefix_cons_inj '&').mpr ?_
  rcases List.append_eq_append_iff.mp hrest with ⟨more, rfl, -⟩ | ⟨more, rfl, hmore⟩
  · exact List.prefix_append name more
  · cases more with
    | nil => simp
    | cons a more =>
        obtain ⟨rfl, -⟩ := List.cons.inj hmore
        simp at hamp

/-- **An ampersand cuts a text.**  What stands in front of it is read as if
nothing followed. -/
theorem unescapeChars_append (front back : List Char) :
    unescapeChars (front ++ '&' :: back) = unescapeChars front ++ unescapeChars ('&' :: back) := by
  induction front using entity_induction with
  | nil => rfl
  | entity e he rest ih =>
      rw [List.append_assoc, unescapeChars_entity he, unescapeChars_entity he, ih,
        List.cons_append]
  | char c rest hnone ih =>
      have hstill : ∀ e ∈ entities, ¬ e.1.toList <+: c :: (rest ++ '&' :: back) :=
        fun e he hprefix => hnone e he (entity_prefix_of_append he hprefix)
      rw [List.cons_append, unescapeChars_cons hstill, unescapeChars_cons hnone, ih,
        List.cons_append]

/-- A text in which no entity occurs is copied. -/
theorem unescapeChars_of_no_entity {cs : List Char}
    (h : ∀ e ∈ entities, ¬ e.1.toList <:+: cs) : unescapeChars cs = cs := by
  induction cs with
  | nil => rfl
  | cons c rest ih =>
      rw [unescapeChars_cons fun e he hprefix => h e he hprefix.isInfix]
      rw [ih fun e he hmem => h e he (hmem.trans (List.suffix_cons c rest).isInfix)]

/-- So is a text without an ampersand in front of any other. -/
theorem unescapeChars_append_of_not_mem {front : List Char} (h : '&' ∉ front)
    (back : List Char) : unescapeChars (front ++ back) = front ++ unescapeChars back := by
  induction front with
  | nil => rfl
  | cons c rest ih =>
      rw [List.mem_cons, not_or] at h
      have hnone : ∀ e ∈ entities, ¬ e.1.toList <+: c :: (rest ++ back) := by
        rintro e he ⟨tail, htail⟩
        obtain ⟨name, -, hname⟩ := entity_eq_cons he
        rw [hname] at htail
        exact h.1 (List.cons.inj htail).1
      rw [List.cons_append, unescapeChars_cons hnone, ih h.2, List.cons_append]

theorem unescapeChars_of_not_mem {cs : List Char} (h : '&' ∉ cs) : unescapeChars cs = cs := by
  have hcopied := unescapeChars_append_of_not_mem h []
  rwa [List.append_nil, unescapeChars_nil, List.append_nil] at hcopied

/-! ## The search -/

/-- The search for ampersands, from what has been decoded and the text that is
left to what comes out.  Every step takes something off the text. -/
inductive Decodes : (done text out : List Char) → Prop
  /-- Without an ampersand the text is copied to its end. -/
  | finish {done text : List Char} (htext : '&' ∉ text) : Decodes done text (done ++ text)
  /-- An entity at the first ampersand is decoded, and the search goes on behind
  it. -/
  | entity {done before rest out : List Char} {e : String × Char} (hbefore : '&' ∉ before)
      (he : e ∈ entities) (h : Decodes (done ++ before ++ [e.2]) rest out) :
      Decodes done (before ++ e.1.toList ++ rest) out
  /-- Any other ampersand is kept, and the search goes on behind it. -/
  | ampersand {done before rest out : List Char} (hbefore : '&' ∉ before)
      (hnone : ∀ e ∈ entities, ¬ e.1.toList <+: '&' :: rest)
      (h : Decodes (done ++ before ++ ['&']) rest out) :
      Decodes done (before ++ '&' :: rest) out

/-- The search ends with what reading gives. -/
theorem decodes_unescapeChars (done text : List Char) :
    Decodes done text (done ++ unescapeChars text) := by
  induction hlength : text.length using Nat.strongRecOn generalizing done text with
  | ind n ih =>
    by_cases hamp : '&' ∈ text
    · obtain ⟨before, rest, rfl, hbefore⟩ := List.eq_append_cons_of_mem hamp
      rw [unescapeChars_append_of_not_mem hbefore]
      by_cases hentity : ∃ e ∈ entities, e.1.toList <+: '&' :: rest
      · obtain ⟨e, he, tail, htail⟩ := hentity
        have hshorter : tail.length < n := by
          obtain ⟨name, -, hname⟩ := entity_eq_cons he
          have hsum := congrArg List.length htail
          simp only [hname, List.length_append, List.length_cons] at hsum hlength
          omega
        have hrest := ih _ hshorter (done ++ before ++ [e.2]) tail rfl
        rw [← htail, unescapeChars_entity he, ← List.append_assoc]
        simpa using Decodes.entity hbefore he hrest
      · have hnone : ∀ e ∈ entities, ¬ e.1.toList <+: '&' :: rest := fun e he hprefix =>
          hentity ⟨e, he, hprefix⟩
        have hshorter : rest.length < n := by
          simp only [List.length_append, List.length_cons] at hlength
          omega
        have hrest := ih _ hshorter (done ++ before ++ ['&']) rest rfl
        rw [unescapeChars_cons hnone]
        simpa using Decodes.ampersand hbefore hnone hrest
    · rw [unescapeChars_of_not_mem hamp]
      exact .finish hamp

/-- And with nothing else. -/
theorem Decodes.eq {done text out : List Char} (h : Decodes done text out) :
    out = done ++ unescapeChars text := by
  induction h with
  | @finish done text htext => rw [unescapeChars_of_not_mem htext]
  | @entity done before rest out e hbefore he h ih =>
      rw [ih, List.append_assoc before, unescapeChars_append_of_not_mem hbefore,
        unescapeChars_entity he]
      simp
  | @ampersand done before rest out hbefore hnone h ih =>
      rw [ih, unescapeChars_append_of_not_mem hbefore, unescapeChars_cons hnone]
      simp

/-! ## Exactness -/

/-- **Escaping and reading.**  What was escaped reads back as itself, and no
bracket and no quote is left in it.  On every text the search for ampersands
ends, and with one result only.  An entity is decoded where it stands, whatever
is around it, and a text without entities is copied. -/
theorem unescape_exact :
    (∀ s, unescape (escape s) = s) ∧
    (∀ s, ∀ c ∈ delimiters, c ∉ (escape s).toList) ∧
    (∀ text out : String, Decodes [] text.toList out.toList ↔ out = unescape text) ∧
    (∀ e ∈ entities, ∀ before after : String,
      unescape (before ++ e.1 ++ after) =
        unescape before ++ String.singleton e.2 ++ unescape after) ∧
    ∀ text : String, (∀ e ∈ entities, ¬ e.1.toList <:+: text.toList) → unescape text = text := by
  refine ⟨unescape_escape, fun s c hc => delimiter_not_mem_escape hc s, ?_, ?_, ?_⟩
  · intro text out
    constructor
    · intro h
      have hout := h.eq
      rw [List.nil_append] at hout
      rw [unescape, ← hout, String.ofList_toList]
    · rintro rfl
      rw [unescape, String.toList_ofList]
      exact decodes_unescapeChars [] text.toList
  · intro e he before after
    obtain ⟨name, -, hname⟩ := entity_eq_cons he
    have hread := unescapeChars_entity he after.toList
    rw [hname, List.cons_append] at hread
    apply String.toList_injective
    simp only [unescape, String.toList_append, String.toList_ofList, String.toList_singleton]
    rw [List.append_assoc, hname, List.cons_append, unescapeChars_append, hread, List.append_assoc,
      List.singleton_append]
  · intro text h
    rw [unescape, unescapeChars_of_no_entity h, String.ofList_toList]

/-- An entity behind an escaped ampersand is not decoded, and one that is cut off
is none. -/
theorem unescape_exact_nested :
    Decodes [] "&amp;lt; & &copy;".toList "&lt; & &copy;".toList ∧
      ("&lt;", '<') ∈ entities ∧ unescape ("&am&l" ++ "&lt;" ++ "t;") = "&am&l<t;" ∧
      (∀ e ∈ entities, ¬ e.1.toList <:+: "&l t;".toList) ∧ unescape "&l t;" = "&l t;" := by
  obtain ⟨-, -, hdecodes, hentity, hcopied⟩ := unescape_exact
  have hmem : ("&lt;", '<') ∈ entities := by decide
  have hnone : ∀ e ∈ entities, ¬ e.1.toList <:+: "&l t;".toList := by decide
  refine ⟨(hdecodes _ _).mpr (by decide +kernel), hmem, ?_, hnone, hcopied _ hnone⟩
  rw [hentity _ hmem]
  decide +kernel

end CodeFence.Markup
