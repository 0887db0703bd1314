import CodeFence.Proofs.BlockMarkup
import CodeFence.Proofs.ConfigRoundTrip

/-!
# Wrappers in a text

The opening tag of a wrapper has a grammar without ambiguity, so it is read as
it was written, whatever its attribute values are.  A text in front of a wrapper
in which no other one begins stays such a text when the wrapper is replaced:
what follows such a text begins with a bracket, and no part of an opening tag but
an attribute value can go on with one; such a value would end at the first quote
of the wrapper, behind which no attribute comes.

* `attributes?_eq_some_iff` — the grammar of an opening tag;
* `attributes?_openingTag` — the opening tag of a written wrapper is read back;
* `Quiet` — no wrapper begins in a text that a wrapper follows;
* `quiet_of_no_mark`, `quiet_of_findAfter` — where such texts come from;
* `pieces_render` — cutting a page at a written wrapper;
* `exists_pieces` — every page is quiet texts, blocks, and a last text.
-/

namespace CodeFence

namespace Wrapper

open Markup

/-! ## Opening tags -/

/-- A value goes on to the first quote. -/
theorem value?_eq_some_iff {cs value rest : List Char} :
    value? cs = some (value, rest) ↔ cs = value ++ '"' :: rest ∧ '"' ∉ value := by
  constructor
  · intro h
    unfold value? at h
    split at h
    · rename_i q after hdrop
      obtain ⟨rfl, rfl⟩ : cs.takeWhile (· ≠ '"') = value ∧ after = rest := by simpa using h
      have hquote := List.head?_dropWhile_not (· ≠ '"') cs
      rw [hdrop] at hquote
      obtain rfl : q = '"' := by simpa using hquote
      refine ⟨?_, fun hmem => ?_⟩
      · rw [← hdrop, List.takeWhile_append_dropWhile]
      · have hne := List.all_takeWhile (p := (· ≠ '"')) (l := cs)
        simpa using List.all_eq_true.mp hne '"' hmem
    · cases h
  · rintro ⟨rfl, hvalue⟩
    have hne : ∀ c ∈ value, decide (c ≠ '"') = true := fun c hc =>
      decide_eq_true fun heq => hvalue (heq ▸ hc)
    have hstop : ∀ c ∈ ('"' :: rest).head?, decide (c ≠ '"') = false := by simp
    obtain ⟨htake, hdrop⟩ := span_append hne hstop
    unfold value?
    rw [hdrop, htake]

/-- The attribute of the configuration as it is written. -/
def configText : Option (List Char) → List Char
  | none => []
  | some config => beforeConfig ++ config ++ ['"']

/-- An attribute value holds no quote. -/
theorem quote_not_mem_escape (s : String) : '"' ∉ (escape s).toList :=
  delimiter_not_mem_escape (by decide) s

/-- The configuration is read where it stands. -/
theorem configValue_configText {config : Option (List Char)} (hconfig : ∀ k ∈ config, '"' ∉ k)
    (rest : List Char) :
    configValue (configText config ++ (beforeCode ++ rest)) = (config, beforeCode ++ rest) := by
  cases config with
  | none => rfl
  | some k =>
      have hafter : Text.after? beforeConfig (configText (some k) ++ (beforeCode ++ rest)) =
          some (k ++ '"' :: (beforeCode ++ rest)) := by
        rw [Text.after?_eq_some_iff]
        simp [configText]
      have hvalue : value? (k ++ '"' :: (beforeCode ++ rest)) = some (k, beforeCode ++ rest) :=
        value?_eq_some_iff.mpr ⟨rfl, hconfig k rfl⟩
      rw [configValue, hafter, Option.bind_some, hvalue]

theorem configValue_eq (cs : List Char) :
    cs = configText (configValue cs).1 ++ (configValue cs).2 ∧
      ∀ k ∈ (configValue cs).1, '"' ∉ k := by
  unfold configValue
  split
  · rename_i k after hread
    obtain ⟨text, hafter, hvalue⟩ := Option.bind_eq_some_iff.mp hread
    obtain ⟨rfl, hk⟩ := value?_eq_some_iff.mp hvalue
    rw [Text.after?_eq_some_iff.mp hafter]
    exact ⟨by simp [configText], by simpa using hk⟩
  · exact ⟨rfl, by simp⟩

/-- **The grammar of an opening tag.** -/
theorem attributes?_eq_some_iff {cs rest : List Char} {a : BlockAttributes} :
    attributes? cs = some (a, rest) ↔
      ∃ language config code, '"' ∉ language ∧ (∀ k ∈ config, '"' ∉ k) ∧ '"' ∉ code ∧
        cs = opening ++ (language ++ '"' :: (configText config ++
          (beforeCode ++ (code ++ '"' :: '>' :: rest)))) ∧
        a = ⟨decode language, config.map decode, decode code⟩ := by
  constructor
  · intro h
    simp only [attributes?, Option.bind_eq_bind, Option.bind_eq_some_iff, Prod.exists,
      Option.pure_def, Option.some.injEq, Prod.mk.injEq] at h
    obtain ⟨language, r₁, ⟨r₀, h₀, h₁⟩, code, r₃, ⟨r₂, h₂, h₃⟩, r₄, h₄, rfl, rfl⟩ := h
    obtain ⟨rfl, hlanguage⟩ := value?_eq_some_iff.mp h₁
    obtain ⟨rfl, hcode⟩ := value?_eq_some_iff.mp h₃
    obtain ⟨hconfig, hvalue⟩ := configValue_eq r₁
    rw [Text.after?_eq_some_iff] at h₀ h₂ h₄
    refine ⟨language, (configValue r₁).1, code, hlanguage, hvalue, hcode, ?_, rfl⟩
    rw [h₂, h₄] at hconfig
    exact h₀.trans (congrArg (fun r => opening ++ (language ++ '"' :: r)) hconfig)
  · rintro ⟨language, config, code, hlanguage, hconfig, hcode, rfl, rfl⟩
    have hafter : ∀ lead rest, Text.after? lead (lead ++ rest) = some rest := fun _ _ =>
      Text.after?_eq_some_iff.mpr rfl
    have hread : ∀ value rest, '"' ∉ value → value? (value ++ '"' :: rest) = some (value, rest) :=
      fun _ _ hvalue => value?_eq_some_iff.mpr ⟨rfl, hvalue⟩
    have hend : Text.after? ['>'] ('>' :: rest) = some rest := hafter ['>'] rest
    simp only [attributes?, Option.bind_eq_bind, hafter, Option.bind_some, hread _ _ hlanguage,
      configValue_configText hconfig, hread _ _ hcode, hend]
    rfl

theorem decode_escape (s : String) : decode (escape s).toList = s := by
  rw [decode, escape, String.toList_ofList, unescapeChars_escapeChars, String.ofList_toList]

/-- What a wrapper of a block records. -/
def recorded (config : BlockConfig) (code : String) : BlockAttributes :=
  ⟨config.language, some config.render, code⟩

/-- The opening tag of a written wrapper. -/
def openingTag (config : BlockConfig) (code : String) : List Char :=
  opening ++ ((escape config.language).toList ++ '"' :: (beforeConfig ++
    (escape config.render).toList ++ '"' :: (beforeCode ++ ((escape code).toList ++ ['"', '>']))))

theorem toList_render (config : BlockConfig) (code html : String) :
    (render config code html).toList =
      openingTag config code ++ (html.toList ++ "</div>".toList) := by
  have hopening : "<div class=\"fencelight-block\" data-language=\"".toList = opening := rfl
  have hconfig : "\" data-config=\"".toList = '"' :: beforeConfig := by
    unfold beforeConfig
    simp
  have hcode : "\" data-original-code=\"".toList = '"' :: beforeCode := by
    unfold beforeCode
    simp
  have hend : "\">".toList = ['"', '>'] := by simp
  unfold render openingTag
  generalize "<div class=\"fencelight-block\" data-language=\"" = a at hopening ⊢
  generalize "\" data-config=\"" = b at hconfig ⊢
  generalize "\" data-original-code=\"" = c at hcode ⊢
  generalize "\">" = d at hend ⊢
  simp only [String.toList_append, hopening, hconfig, hcode, hend, List.append_assoc,
    List.cons_append, List.nil_append]

/-- A wrapper shows what it was put around. -/
theorem render_injective {config : BlockConfig} {code html html' : String}
    (h : render config code html = render config code html') : html = html' := by
  have hchars := congrArg String.toList h
  rw [toList_render, toList_render, List.append_cancel_left_eq, List.append_cancel_right_eq]
    at hchars
  exact String.toList_injective hchars

/-- **A written wrapper** is read back as what it records. -/
theorem attributes?_openingTag (config : BlockConfig) (code : String) (rest : List Char) :
    attributes? (openingTag config code ++ rest) = some (recorded config code, rest) := by
  refine attributes?_eq_some_iff.mpr ⟨(escape config.language).toList,
    some (escape config.render).toList, (escape code).toList, quote_not_mem_escape _, ?_,
    quote_not_mem_escape _, ?_, ?_⟩
  · simpa using quote_not_mem_escape _
  · simp [openingTag, configText]
  · simp [recorded, decode_escape]

/-! ## Texts in front of a wrapper -/

/-- No wrapper begins in a text, if one follows. -/
def Quiet : List Char → Prop
  | [] => True
  | c :: cs => (∀ after, attributes? (c :: cs ++ (opening ++ after)) = none) ∧ Quiet cs

/-- A text without the bracket that opens an element lies in front of it. -/
theorem split_before_lt {lead front rest after : List Char} (hlead : '<' ∉ lead)
    (h : lead ++ rest = front ++ '<' :: after) :
    ∃ tail, front = lead ++ tail ∧ rest = tail ++ '<' :: after := by
  rcases List.append_eq_append_iff.mp h with ⟨tail, rfl, htail⟩ | ⟨tail, rfl, htail⟩
  · exact ⟨tail, rfl, htail⟩
  · cases tail with
    | nil => exact ⟨[], by simp, by simpa using htail.symm⟩
    | cons c tail =>
        obtain ⟨rfl, -⟩ := List.cons.inj htail
        simp at hlead

/-- The same text is cut at its first quote in one way only. -/
theorem split_at_quote {value value' rest rest' : List Char} (hvalue : '"' ∉ value)
    (hvalue' : '"' ∉ value') (h : value ++ '"' :: rest = value' ++ '"' :: rest') :
    value = value' ∧ rest = rest' := by
  have hleft : value? (value ++ '"' :: rest) = some (value, rest) :=
    value?_eq_some_iff.mpr ⟨rfl, hvalue⟩
  have hright := value?_eq_some_iff.mpr ⟨h, hvalue'⟩
  simpa [hleft] using hright

/-- An attribute value ends in front of a wrapper, or at the first quote in it. -/
theorem split_value {value front rest after : List Char} (hvalue : '"' ∉ value)
    (h : value ++ '"' :: rest = front ++ (opening ++ after)) :
    (∃ tail, front = value ++ '"' :: tail ∧ rest = tail ++ (opening ++ after)) ∨
      ∃ tail, rest = 'f' :: tail := by
  obtain ⟨others, hclass⟩ : ∃ others, opening = "<div class=".toList ++ '"' :: 'f' :: others :=
    ⟨"encelight-block\" data-language=\"".toList, by unfold opening; simp⟩
  rcases List.append_eq_append_iff.mp h with ⟨tail, rfl, htail⟩ | ⟨tail, rfl, htail⟩
  · cases tail with
    | nil => cases (List.cons.inj htail).1
    | cons c tail =>
        obtain ⟨rfl, rfl⟩ := List.cons.inj htail
        exact Or.inl ⟨tail, rfl, rfl⟩
  · have hquote : '"' ∉ "<div class=".toList := by decide
    rw [hclass, List.append_assoc] at htail
    obtain ⟨-, rfl⟩ := split_at_quote (fun hmem => hvalue (List.mem_append_right _ hmem)) hquote
      htail.symm
    exact Or.inr ⟨_, rfl⟩

/-- A lead that opens no element lies in front of a wrapper. -/
theorem split_lead {lead front rest after : List Char} (hlead : '<' ∉ lead)
    (h : lead ++ rest = front ++ (opening ++ after)) :
    ∃ tail, front = lead ++ tail ∧ rest = tail ++ (opening ++ after) :=
  @split_before_lt _ _ _ (opening.tail ++ after) hlead h

theorem split_config {config : Option (List Char)} (hconfig : ∀ k ∈ config, '"' ∉ k)
    {front rest after : List Char}
    (h : configText config ++ (beforeCode ++ rest) = front ++ (opening ++ after)) :
    ∃ tail, front = configText config ++ (beforeCode ++ tail) ∧
      rest = tail ++ (opening ++ after) := by
  have hcode : '<' ∉ beforeCode := by decide
  cases config with
  | none => exact split_lead hcode h
  | some k =>
      have htext : beforeConfig ++ (k ++ '"' :: (beforeCode ++ rest)) =
          front ++ (opening ++ after) := by
        simpa [configText] using h
      obtain ⟨front', rfl, hvalue⟩ := split_lead (by decide) htext
      rcases split_value (hconfig k rfl) hvalue with ⟨front', rfl, hrest⟩ | ⟨_, hf⟩
      · obtain ⟨tail, rfl, hrest'⟩ := split_lead hcode hrest
        exact ⟨tail, by simp [configText], hrest'⟩
      · cases (List.cons.inj hf).1

/-- **Inside the text.**  An opening tag that begins in front of a wrapper ends
there, whatever the wrapper is. -/
theorem attributes?_front {front after rest : List Char} {a : BlockAttributes}
    (hfront : front ≠ []) (h : attributes? (front ++ (opening ++ after)) = some (a, rest)) :
    ∃ tail, ∀ after', attributes? (front ++ (opening ++ after')) =
      some (a, tail ++ (opening ++ after')) := by
  obtain ⟨language, config, code, hlanguage, hconfig, hcode, htext, rfl⟩ :=
    attributes?_eq_some_iff.mp h
  obtain ⟨c, front, rfl⟩ := List.exists_cons_of_ne_nil hfront
  have hbehind : '<' ∉ opening.tail := by decide
  obtain ⟨rfl, h₁⟩ : c = '<' ∧ front ++ (opening ++ after) = opening.tail ++ _ :=
    List.cons.inj htext
  obtain ⟨front₁, rfl, h₂⟩ := split_lead hbehind h₁.symm
  rcases split_value hlanguage h₂ with ⟨front₂, rfl, h₃⟩ | ⟨_, hf⟩
  · obtain ⟨front₃, rfl, h₄⟩ := split_config hconfig h₃
    rcases split_value hcode h₄ with ⟨front₄, rfl, h₅⟩ | ⟨_, hf⟩
    · obtain ⟨tail, rfl, -⟩ := @split_lead ['>'] _ _ _ (by decide) h₅
      refine ⟨tail, fun after' => attributes?_eq_some_iff.mpr
        ⟨language, config, code, hlanguage, hconfig, hcode, ?_, rfl⟩⟩
      change '<' :: (opening.tail ++ _ ++ _) = '<' :: (opening.tail ++ _)
      simp
    · cases (List.cons.inj hf).1
  · cases config <;> cases (List.cons.inj hf).1

/-- Two texts in front of a wrapper are searched alike. -/
theorem Quiet.findAfter_eq {text : List Char} (h : Quiet text) (before after : List Char) :
    findAfter before (text ++ (opening ++ after)) =
      findAfter (text.reverse ++ before) (opening ++ after) := by
  induction text generalizing before with
  | nil => rfl
  | cons c text ih =>
      have hhead := h.1 after
      rw [List.cons_append] at hhead ⊢
      rw [findAfter, hhead]
      dsimp only
      rw [ih h.2, List.reverse_cons, List.append_assoc]
      rfl

/-- **A written wrapper is found** behind a quiet text. -/
theorem Quiet.find?_openingTag {text : List Char} (h : Quiet text) (config : BlockConfig)
    (code : String) (rest : List Char) :
    find? (text ++ (openingTag config code ++ rest)) =
      some (text, recorded config code, rest) := by
  have hread := attributes?_openingTag config code rest
  obtain ⟨others, hothers⟩ : ∃ others, openingTag config code ++ rest = opening ++ others :=
    ⟨_, List.append_assoc _ _ _⟩
  rw [hothers] at hread ⊢
  obtain ⟨c, cs, hcs⟩ : ∃ c cs, opening ++ others = c :: cs := ⟨'<', opening.tail ++ others, rfl⟩
  rw [find?, h.findAfter_eq, hcs, findAfter, ← hcs, hread]
  simp

/-- What stands in front of the first wrapper is quiet, whatever wrapper
follows. -/
theorem quiet_of_findAfter {before cs text rest : List Char} {a : BlockAttributes}
    (h : findAfter before cs = some (text, a, rest)) :
    ∃ front, text = before.reverse ++ front ∧ Quiet front ∧
      ∃ after, cs = front ++ (opening ++ after) := by
  induction cs generalizing before with
  | nil => cases h
  | cons c cs ih =>
      rw [findAfter] at h
      split at h
      · rename_i b r hread
        obtain ⟨language, config, code, -, -, -, htext, -⟩ := attributes?_eq_some_iff.mp hread
        obtain ⟨rfl, -⟩ : before.reverse = text ∧ _ := by simpa using h
        exact ⟨[], by simp, trivial, _, htext⟩
      · rename_i hnone
        obtain ⟨front, rfl, hquiet, after, rfl⟩ := ih h
        refine ⟨c :: front, by simp, ⟨?_, hquiet⟩, after, rfl⟩
        intro other
        cases hother : attributes? (c :: front ++ (opening ++ other)) with
        | none => rfl
        | some found =>
            obtain ⟨tail, htail⟩ := attributes?_front (List.cons_ne_nil c front) hother
            have hhere := htail after
            rw [List.cons_append, hnone] at hhere
            cases hhere

/-- Where no mark stands, no wrapper begins. -/
theorem attributes?_eq_none_of_mark {cs : List Char} (h : ¬ mark <+: cs) :
    attributes? cs = none := by
  cases hread : attributes? cs with
  | none => rfl
  | some found =>
      obtain ⟨language, config, code, -, -, -, htext, -⟩ := attributes?_eq_some_iff.mp hread
      obtain ⟨others, hothers⟩ : ∃ others, opening = mark ++ others :=
        ⟨" data-language=\"".toList, by unfold opening mark; simp⟩
      exact absurd ⟨_, by rw [htext, hothers, List.append_assoc]⟩ h

/-- **A text without the mark** is quiet. -/
theorem quiet_of_no_mark {text : List Char} (h : ¬ mark <:+: text) : Quiet text := by
  induction text with
  | nil => trivial
  | cons c cs ih =>
      refine ⟨fun after => attributes?_eq_none_of_mark ?_, ih fun hcs => h (hcs.trans ?_)⟩
      · rintro ⟨rest, hrest⟩
        obtain ⟨rfl, hbody⟩ : '<' = c ∧ mark.tail ++ rest = cs ++ (opening ++ after) :=
          List.cons.inj hrest
        obtain ⟨tail, rfl, -⟩ := split_lead (by decide) hbody
        exact h (List.prefix_append mark tail).isInfix
      · exact (List.suffix_cons c cs).isInfix

theorem findAfter_eq_none_of_no_mark {text : List Char} (h : ¬ mark <:+: text)
    (before : List Char) : findAfter before text = none := by
  induction text generalizing before with
  | nil => rfl
  | cons c cs ih =>
      have hhead : attributes? (c :: cs) = none :=
        attributes?_eq_none_of_mark fun hprefix => h hprefix.isInfix
      rw [findAfter, hhead]
      exact ih (fun hcs => h (hcs.trans (List.suffix_cons c cs).isInfix)) _

/-! ## Pieces -/

theorem pieces_of_find?_none {cs : List Char} (h : find? cs = none) :
    pieces cs = [.text cs] := by
  rw [pieces]
  split
  · rfl
  · rename_i hfound
    rw [h] at hfound
    cases hfound

/-- A wrapper that does not end is text, and so is all that follows. -/
theorem pieces_of_open {cs before rest : List Char} {a : BlockAttributes}
    (h : find? cs = some (before, a, rest)) (hopen : Text.cutAround? closing rest = none) :
    pieces cs = [.text cs] := by
  rw [pieces]
  split
  · rfl
  · rename_i b a' r hfound
    obtain ⟨rfl, rfl, rfl⟩ : before = b ∧ a = a' ∧ rest = r := by simpa [h] using hfound
    split
    · rfl
    · rename_i hcut
      rw [hopen] at hcut
      cases hcut

theorem pieces_of_closed {cs before rest inner after : List Char} {a : BlockAttributes}
    (h : find? cs = some (before, a, rest))
    (hclosed : Text.cutAround? closing rest = some (inner, after)) :
    pieces cs = .text before :: .block a :: pieces after := by
  rw [pieces]
  split
  · rename_i hnone
    rw [h] at hnone
    cases hnone
  · rename_i b a' r hfound
    obtain ⟨rfl, rfl, rfl⟩ : before = b ∧ a = a' ∧ rest = r := by simpa [h] using hfound
    split
    · rename_i hcut
      rw [hclosed] at hcut
      cases hcut
    · rename_i inner' after' hcut
      obtain ⟨-, rfl⟩ : inner = inner' ∧ after = after' := by simpa [hclosed] using hcut
      rfl

/-- A rendering that ends where its wrapper ends. -/
def Closed (html : String) : Prop :=
  ∀ rest, ∃ inner, Text.cutAround? closing (html.toList ++ "</div>".toList ++ rest) =
    some (inner, rest)

/-- **Cutting a page at a written wrapper.** -/
theorem pieces_render {text : List Char} (htext : Quiet text) (config : BlockConfig)
    (code : String) {html : String} (hhtml : Closed html) (rest : List Char) :
    pieces (text ++ ((render config code html).toList ++ rest)) =
      .text text :: .block (recorded config code) :: pieces rest := by
  obtain ⟨inner, hclosed⟩ := hhtml rest
  refine @pieces_of_closed _ text _ _ _ _ ?_ hclosed
  rw [toList_render, List.append_assoc]
  exact htext.find?_openingTag config code _

/-- The pieces of a page in which blocks were found. -/
def piecesOf (found : List (List Char × BlockAttributes)) (last : List Char) : List Piece :=
  found.flatMap (fun f => [Piece.text f.1, Piece.block f.2]) ++ [Piece.text last]

/-- **Every page** is quiet texts, each in front of a block, and a last text
that stays as it is. -/
theorem exists_pieces (cs : List Char) :
    ∃ (found : List (List Char × BlockAttributes)) (last : List Char),
      pieces cs = piecesOf found last ∧ (∀ f ∈ found, Quiet f.1) ∧
        pieces last = [.text last] := by
  fun_induction pieces cs with
  | case1 cs hfind => exact ⟨[], cs, rfl, by simp, pieces_of_find?_none hfind⟩
  | case2 cs before a rest hfind hcut => exact ⟨[], cs, rfl, by simp, pieces_of_open hfind hcut⟩
  | case3 cs before a rest hfind inner after hcut ih =>
      obtain ⟨found, last, hpieces, hquiet, hlast⟩ := ih
      obtain ⟨_, rfl, hbefore, -⟩ := quiet_of_findAfter hfind
      refine ⟨(before, a) :: found, last, ?_, ?_, hlast⟩
      · rw [hpieces]
        rfl
      · exact List.forall_mem_cons.mpr ⟨hbefore, hquiet⟩

/-! ## Attributes -/

theorem findAfter_eq_map (before cs : List Char) :
    findAfter before cs =
      (find? cs).map fun found => (before.reverse ++ found.1, found.2) := by
  induction cs generalizing before with
  | nil => rfl
  | cons c cs ih =>
      rw [find?, findAfter, findAfter]
      cases attributes? (c :: cs) with
      | some found => simp
      | none =>
          dsimp only
          rw [ih (c :: before), ih [c], Option.map_map]
          congr 1
          funext found
          simp

/-- Where a wrapper is found does not matter to what is counted. -/
theorem all_eq (cs : List Char) :
    all cs = (match find? cs with
      | none => []
      | some (_, a, rest) => a :: all rest) := by
  rw [all]
  split
  · rename_i h
    rw [h]
  · rename_i h
    rw [h]

/-- Where no wrapper begins, none is counted. -/
theorem all_append_of_avoids {text : List Char} (h : Text.Avoids mark text) (rest : List Char) :
    all (text ++ rest) = all rest := by
  have hskip : ∀ before, findAfter before (text ++ rest) =
      findAfter (text.reverse ++ before) rest := by
    induction text with
    | nil => exact fun _ => rfl
    | cons c text ih =>
        intro before
        have hhead : attributes? (c :: (text ++ rest)) = none := by
          refine attributes?_eq_none_of_mark ?_
          rintro ⟨after, hafter⟩
          have hfound := Text.after?_eq_some_iff.mpr hafter.symm
          have hnone := h.1 rest
          rw [List.cons_append, hfound] at hnone
          cases hnone
        rw [List.cons_append, findAfter, hhead]
        dsimp only
        rw [ih h.2, List.reverse_cons, List.append_assoc]
        rfl
  rw [all_eq, all_eq rest, find?, hskip, findAfter_eq_map]
  cases find? rest <;> rfl

theorem all_of_no_mark {text : List Char} (h : ¬ mark <:+: text) : all text = [] := by
  rw [all_eq, find?, findAfter_eq_none_of_no_mark h]

/-- **A written wrapper is counted once.** -/
theorem all_render {text : List Char} (htext : Quiet text) (config : BlockConfig)
    (code : String) {html : String} (hhtml : Text.Avoids mark html.toList) (rest : List Char) :
    all (text ++ ((render config code html).toList ++ rest)) =
      recorded config code :: all rest := by
  have hend : Text.Avoids mark "</div>".toList :=
    Markup.avoids_tag (by decide) fun _ => rfl
  rw [toList_render, List.append_assoc, all_eq, htext.find?_openingTag]
  dsimp only
  rw [all_append_of_avoids (hhtml.append hend)]

end Wrapper

end CodeFence
