import CodeFence.Json.Writer
import CodeFence.Proofs.Numerals
import CodeFence.Proofs.TextCuts

/-!
# Written JSON cut into words

What the writer lays out, in either layout, is cut into the words that it was
put together from.  Brackets, separators, literals and strings end by
themselves, whatever comes next; only a number needs something after it that is
no part of a number.

* `Json.tokens` — the words that a value is written with;
* `Leads`, `Spells` — a text is cut into given words in front of any text, or in
  front of one that a number may end at;
* `leads_of_mem_fixedTexts` — brackets, separators, literals and blanks;
* `leads_quoted` — an escaped string is cut into one word, with its own text;
* `spells_writeOnto` — a written value is cut into its words.
-/

namespace CodeFence.Json

mutual

/-- Every number of a value is a natural number of at most 64 bits. -/
def Plain : Json → Prop
  | .number n => ∃ m < Text.bitBound 64, n = .natural m
  | .array items => PlainItems items
  | .object entries => PlainEntries entries
  | _ => True

/-- `Plain` for the items of an array. -/
def PlainItems : List Json → Prop
  | [] => True
  | v :: rest => v.Plain ∧ PlainItems rest

/-- `Plain` for the entries of an object. -/
def PlainEntries : List (String × Json) → Prop
  | [] => True
  | (_, v) :: rest => v.Plain ∧ PlainEntries rest

end

mutual

/-- The words that a value is written with. -/
def tokens : Json → List Token
  | .null => [.null]
  | .bool b => [.bool b]
  | .number n => [.number n]
  | .string s => [.string (some s)]
  | .array items => .openArray :: (itemTokens true items ++ [.closeArray])
  | .object entries => .openObject :: (entryTokens true entries ++ [.closeObject])

/-- The words of items, with a comma in front of each one but the first of all. -/
def itemTokens (first : Bool) : List Json → List Token
  | [] => []
  | v :: rest => (if first then [] else [.comma]) ++ v.tokens ++ itemTokens false rest

/-- The words of entries, with a comma in front of each one but the first of all. -/
def entryTokens (first : Bool) : List (String × Json) → List Token
  | [] => []
  | (key, v) :: rest =>
    (if first then [] else [.comma]) ++ [.string (some key), .colon] ++ v.tokens ++
      entryTokens false rest

end

/-! ## Writing behind a text -/

mutual

/-- What is written does not depend on the text that it is written behind. -/
theorem writeOnto_eq (l : Layout) (level : Nat) (out : String) (v : Json) :
    writeOnto l level out v = out ++ writeOnto l level "" v := by
  match v with
  | .null | .bool _ | .number _ | .string _ | .array [] | .object [] => simp [writeOnto]
  | .array (v :: rest) =>
      rw [writeOnto, writeItems_eq, writeOnto, writeItems_eq l _ _ ("" ++ "[")]
      · simp only [String.append_assoc, String.empty_append]
      · simp
      · simp
  | .object (e :: rest) =>
      rw [writeOnto, writeEntries_eq, writeOnto, writeEntries_eq l _ _ ("" ++ "\x7b")]
      · simp only [String.append_assoc, String.empty_append]
      · simp
      · simp

theorem writeItems_eq (l : Layout) (level : Nat) (first : Bool) (out : String)
    (items : List Json) :
    writeItems l level first out items = out ++ writeItems l level first "" items := by
  match items with
  | [] => simp [writeItems]
  | v :: rest =>
      rw [writeItems, writeItems_eq, writeOnto_eq, writeItems, writeItems_eq l _ _ (writeOnto ..),
        writeOnto_eq l _ ("" ++ _)]
      simp only [String.append_assoc, String.empty_append]

theorem writeEntries_eq (l : Layout) (level : Nat) (first : Bool) (out : String)
    (entries : List (String × Json)) :
    writeEntries l level first out entries = out ++ writeEntries l level first "" entries := by
  match entries with
  | [] => simp [writeEntries]
  | (key, v) :: rest =>
      rw [writeEntries, writeEntries_eq, writeOnto_eq, writeEntries,
        writeEntries_eq l _ _ (writeOnto ..), writeOnto_eq l _ ("" ++ _ ++ _ ++ _)]
      simp only [String.append_assoc, String.empty_append]

end

/-! ## Cutting -/

/-- A text that a number may stand in front of: it is empty, or it begins with
what stands behind a value. -/
def Ends : List Char → Prop
  | [] => True
  | c :: _ => c = ',' ∨ c = ']' ∨ c = '\x7d' ∨ c = '\n'

/-- In front of any text, `cs` is cut into the words `ts`. -/
def Leads (cs : List Char) (ts : List Token) : Prop :=
  ∀ done rest, tokensOnto done (cs ++ rest) = tokensOnto (ts.reverse ++ done) rest

/-- In front of a text that a number may stand in front of, `cs` is cut into the
words `ts`. -/
def Spells (cs : List Char) (ts : List Token) : Prop :=
  ∀ done rest, Ends rest →
    tokensOnto done (cs ++ rest) = tokensOnto (ts.reverse ++ done) rest

variable {cs ds : List Char} {ts us : List Token}

theorem Leads.spells (h : Leads cs ts) : Spells cs ts :=
  fun done rest _ => h done rest

theorem leads_nil : Leads [] [] := fun _ _ => rfl

theorem Leads.append (h : Leads cs ts) (h' : Leads ds us) : Leads (cs ++ ds) (ts ++ us) := by
  intro done rest
  rw [List.append_assoc, h, h', List.reverse_append, List.append_assoc]

theorem Leads.append_spells (h : Leads cs ts) (h' : Spells ds us) :
    Spells (cs ++ ds) (ts ++ us) := by
  intro done rest hrest
  rw [List.append_assoc, h, h' _ _ hrest, List.reverse_append, List.append_assoc]

theorem Spells.append (h : Spells cs ts) (h' : Spells ds us)
    (hends : ∀ rest, Ends rest → Ends (ds ++ rest)) : Spells (cs ++ ds) (ts ++ us) := by
  intro done rest hrest
  rw [List.append_assoc, h _ _ (hends rest hrest), h' _ _ hrest, List.reverse_append,
    List.append_assoc]

theorem Spells.append_leads (h : Spells cs ts) (h' : Leads ds us)
    (hends : ∀ rest, Ends (ds ++ rest)) : Leads (cs ++ ds) (ts ++ us) := by
  intro done rest
  rw [List.append_assoc, h _ _ (hends rest), h', List.reverse_append, List.append_assoc]

/-- The texts that are cut alike whatever comes next, with their words. -/
def fixedTexts : List (List Char × List Token) :=
  [(['['], [.openArray]), ([']'], [.closeArray]), (['\x7b'], [.openObject]),
    (['\x7d'], [.closeObject]), ([','], [.comma]), ([':'], [.colon]),
    (['n', 'u', 'l', 'l'], [.null]), (['t', 'r', 'u', 'e'], [.bool true]),
    (['f', 'a', 'l', 's', 'e'], [.bool false]), ([' '], []), (['\n'], []), (['\t'], []),
    (['\r'], [])]

theorem leads_of_mem_fixedTexts (h : (cs, ts) ∈ fixedTexts) : Leads cs ts := by
  have hall : ∀ t ∈ fixedTexts, Leads t.1 t.2 := by
    simp only [fixedTexts, List.forall_mem_cons, Leads, List.cons_append, List.nil_append]
    refine ⟨?_, ?_, ?_, ?_, ?_, ?_, ?_, ?_, ?_, ?_, ?_, ?_, ?_, by simp⟩
    all_goals
      intro done rest
      rw [tokensOnto] <;> simp [isGap]
  exact hall _ h

theorem leads_openArray : Leads ['['] [.openArray] :=
  leads_of_mem_fixedTexts (by simp [fixedTexts])

theorem leads_closeArray : Leads [']'] [.closeArray] :=
  leads_of_mem_fixedTexts (by simp [fixedTexts])

theorem leads_openObject : Leads ['\x7b'] [.openObject] :=
  leads_of_mem_fixedTexts (by simp [fixedTexts])

theorem leads_closeObject : Leads ['\x7d'] [.closeObject] :=
  leads_of_mem_fixedTexts (by simp [fixedTexts])

theorem leads_comma : Leads [','] [.comma] :=
  leads_of_mem_fixedTexts (by simp [fixedTexts])

theorem leads_null : Leads "null".toList [.null] :=
  leads_of_mem_fixedTexts (by simp [fixedTexts])

theorem leads_bool (b : Bool) : Leads (if b then "true" else "false").toList [.bool b] := by
  cases b <;> exact leads_of_mem_fixedTexts (by simp [fixedTexts])

theorem leads_gap {c : Char} (hc : isGap c = true) : Leads [c] [] := by
  refine leads_of_mem_fixedTexts ?_
  simp only [isGap, Bool.or_eq_true, decide_eq_true_eq] at hc
  obtain ((rfl | rfl) | rfl) | rfl := hc <;> simp [fixedTexts]

theorem leads_gaps (hgaps : ∀ c ∈ cs, isGap c = true) : Leads cs [] := by
  induction cs with
  | nil => exact leads_nil
  | cons c rest ih =>
      have hrest := ih fun d hd => hgaps d (List.mem_cons_of_mem _ hd)
      exact (leads_gap (hgaps c List.mem_cons_self)).append hrest

theorem leads_break (l : Layout) (level : Nat) : Leads (l.break level).toList [] := by
  cases l with
  | compact => exact leads_nil
  | indented =>
      refine leads_gaps fun c hc => ?_
      simp only [Layout.break, String.toList_append, String.toList_ofList, List.mem_append,
        List.mem_replicate] at hc
      rcases hc with hc | ⟨-, rfl⟩
      · obtain rfl : c = '\n' := by simpa using hc
        rfl
      · rfl

theorem leads_lead (l : Layout) (level : Nat) (first : Bool) :
    Leads (l.lead level first).toList (if first then [] else [.comma]) := by
  have hbreak := leads_break l level
  unfold Layout.lead
  cases first with
  | true => simpa using hbreak
  | false => simpa using leads_comma.append hbreak

theorem leads_colon (l : Layout) : Leads l.colon.toList [.colon] := by
  have hcolon : Leads [':'] [.colon] := leads_of_mem_fixedTexts (by simp [fixedTexts])
  cases l with
  | compact => exact hcolon
  | indented => exact hcolon.append (leads_gap (c := ' ') rfl)

/-! ## Strings -/

/-- A control character is told by its two last hexadecimal digits. -/
theorem hexUnit?_control {n : Nat} (hn : n < 0x20) :
    hexUnit? '0' '0' (hexDigit (n / 16)) (hexDigit n) = some n := by
  have hall : ∀ m < 0x20, hexUnit? '0' '0' (hexDigit (m / 16)) (hexDigit m) = some m := by
    decide
  exact hall n hn

/-- A character that needs no escape is read as it is. -/
theorem stringBody_cons (units : List Nat) {c : Char} (rest : List Char) (hquote : c ≠ '"')
    (hbackslash : c ≠ '\\') (hcontrol : ¬ c.toNat < 0x20) :
    stringBody units (c :: rest) = stringBody (c.toNat :: units) rest := by
  rw [stringBody]
  · exact if_neg (not_or.mpr ⟨hbackslash, hcontrol⟩)
  · exact hquote
  -- What is left are the escapes, all of which begin with a backslash.
  all_goals
    intros
    contradiction

/-- **One character** is read back from how it is written inside a string. -/
theorem stringBody_escapeChar (units : List Nat) (c : Char) (rest : List Char) :
    stringBody units (escapeChar c ++ rest) = stringBody (c.toNat :: units) rest := by
  unfold escapeChar
  split
  iterate 7 (· rw [List.cons_append, List.cons_append, List.nil_append, stringBody]; rfl)
  split
  · rename_i hcontrol
    simp only [List.cons_append, List.nil_append]
    rw [stringBody, hexUnit?_control hcontrol]
  · rename_i hquote hbackslash _ _ _ _ _ hcontrol
    exact stringBody_cons units rest hquote hbackslash hcontrol

/-- A string is read up to the quote that ends it. -/
theorem stringBody_flatMap_escapeChar (units : List Nat) (cs rest : List Char) :
    stringBody units (cs.flatMap escapeChar ++ '"' :: rest) =
      some (units.reverse ++ cs.map Char.toNat, rest) := by
  induction cs generalizing units with
  | nil => simp [stringBody]
  | cons c cs ih =>
      rw [List.flatMap_cons, List.append_assoc, stringBody_escapeChar, ih]
      simp

/-- The numbers of characters hold no half of a pair. -/
theorem pairUp_map_toNat (done cs : List Char) :
    pairUp done (cs.map Char.toNat) = some (done.reverse ++ cs) := by
  induction cs generalizing done with
  | nil => simp [pairUp]
  | cons c cs ih =>
      have hvalid : c.toNat < 0xD800 ∨ 0xDFFF < c.toNat := by
        rcases c.valid with h | ⟨h, -⟩
        · exact Or.inl h
        · exact Or.inr h
      rw [List.map_cons, pairUp.eq_def]
      dsimp only
      rw [if_neg (by omega), if_neg (by omega), ih, Char.ofNat_toNat]
      simp

/-- **A string** is cut into one word that stands for its own text. -/
theorem leads_quoted (s : String) : Leads (quoted s).toList [.string (some s)] := by
  intro done rest
  have hbody := stringBody_flatMap_escapeChar [] s.toList rest
  have htext : (quoted s).toList ++ rest =
      '"' :: (s.toList.flatMap escapeChar ++ '"' :: rest) := by
    simp [quoted]
  rw [htext, tokensOnto]
  split
  · rename_i units after hread
    obtain ⟨rfl, rfl⟩ : s.toList.map Char.toNat = units ∧ rest = after := by
      simpa [hbody] using hread
    simp [pairUp_map_toNat]
  · rename_i hread
    simp [hbody] at hread

/-! ## Numbers -/

/-- No number but zero begins with a zero. -/
theorem head?_toDigits_ne {n : Nat} (hn : 0 < n) : (Nat.toDigits 10 n).head? ≠ some '0' := by
  induction n using Nat.strongRecOn with
  | ind n ih =>
      by_cases hsmall : n < 10
      · have hall : ∀ m < 10, 0 < m → Nat.digitChar m ≠ '0' := by decide
        rw [Nat.toDigits_of_lt_base hsmall]
        simpa using hall n hsmall hn
      · have hfront := ih (n / 10) (by omega) (by omega)
        obtain ⟨d, ds, hds⟩ := List.exists_cons_of_ne_nil
          (Nat.toDigits_ne_nil (n := n / 10) (b := 10))
        rw [hds] at hfront
        rw [Nat.toDigits_of_base_le (by omega) (by omega), hds]
        exact hfront

theorem isWhole_toDigits (n : Nat) : isWhole (Nat.toDigits 10 n) = true := by
  unfold isWhole
  rcases Nat.eq_zero_or_pos n with rfl | hn
  · decide
  · simp [head?_toDigits_ne hn]

/-- More digits do not make a number smaller. -/
theorem le_ofDigitChars (ds : List Char) (acc : Nat) : acc ≤ Nat.ofDigitChars 10 ds acc := by
  induction ds generalizing acc with
  | nil => exact Nat.le_refl _
  | cons c rest ih =>
      have hstep := ih (10 * acc + (c.toNat - '0'.toNat))
      exact Nat.le_trans (by omega) hstep

/-- Digits whose number fits are all taken. -/
theorem leading_eq {ds : List Char} (hds : ∀ c ∈ ds, c.isDigit = true) {acc : Nat}
    (hfits : Nat.ofDigitChars 10 ds acc < Text.bitBound 64) :
    leading acc ds = (Nat.ofDigitChars 10 ds acc, ds.length) := by
  induction ds generalizing acc with
  | nil => rfl
  | cons c rest ih =>
      have hrest : ∀ d ∈ rest, d.isDigit = true := fun d hd => hds d (List.mem_cons_of_mem _ hd)
      have hnext : acc * 10 + digitsValue [c] = 10 * acc + (c.toNat - '0'.toNat) := by
        have hc : ∀ d ∈ [c], d.isDigit = true := by simpa using hds c List.mem_cons_self
        rw [digitsValue, Text.readDigits_eq_ofDigitChars hc, Nat.mul_comm acc]
        simp [Nat.ofDigitChars]
      change Nat.ofDigitChars 10 rest (10 * acc + (c.toNat - '0'.toNat)) < _ at hfits
      have hstep := ih hrest hfits
      have hle := le_ofDigitChars rest (10 * acc + (c.toNat - '0'.toNat))
      rw [leading, hnext]
      dsimp only
      rw [if_pos (by omega), hstep]
      rfl

/-- A text that a number may stand in front of does not go on with the number. -/
theorem Ends.after_digits {rest : List Char} (h : Ends rest) :
    (∀ c ∈ rest.head?, c.isDigit = false) ∧ fraction? rest = some (none, rest) ∧
      exponent? rest = some (none, rest) := by
  cases rest with
  | nil => exact ⟨by simp, rfl, rfl⟩
  | cons c rest => rcases h with rfl | rfl | rfl | rfl <;> exact ⟨by simp, rfl, rfl⟩

theorem number?_toDigits {n : Nat} (hn : n < Text.bitBound 64) {rest : List Char}
    (hrest : Ends rest) : number? (Nat.toDigits 10 n ++ rest) = some (.natural n, rest) := by
  have hdigits : ∀ c ∈ Nat.toDigits 10 n, c.isDigit = true := fun c hc =>
    Nat.isDigit_of_mem_toDigits (by omega) (by omega) hc
  obtain ⟨hstop, hfraction, hexponent⟩ := hrest.after_digits
  have hcut : digits (Nat.toDigits 10 n ++ rest) = (Nat.toDigits 10 n, rest) := by
    obtain ⟨htake, hdrop⟩ := span_append hdigits hstop
    rw [digits, htake, hdrop]
  have hvalue : Nat.ofDigitChars 10 (Nat.toDigits 10 n) 0 = n := Nat.ofDigitChars_ten_toDigits
  have hleading : leading 0 (Nat.toDigits 10 n) = _ := leading_eq hdigits (by rwa [hvalue])
  have hsign : sign (Nat.toDigits 10 n ++ rest) = (1, Nat.toDigits 10 n ++ rest) := by
    obtain ⟨c, cs, hcs⟩ := List.exists_cons_of_ne_nil (Nat.toDigits_ne_nil (n := n) (b := 10))
    have hc := hdigits c (by simp [hcs])
    rw [hcs, List.cons_append, sign.eq_def]
    split
    · rename_i heq
      obtain rfl : c = '-' := (List.cons.inj heq).1
      cases hc
    · rfl
  rw [number?, hsign]
  dsimp only
  rw [hcut]
  dsimp only
  rw [if_pos (isWhole_toDigits n), hfraction, Option.bind_some, hexponent, Option.map_some,
    Number.ofParts, hleading, hvalue]
  simp

/-- A digit opens a number and nothing else. -/
theorem tokensOnto_number (done : List Token) {c : Char} {cs rest : List Char} {n : Number}
    (hc : c.isDigit = true) (h : number? (c :: cs) = some (n, rest)) :
    tokensOnto done (c :: cs) = tokensOnto (.number n :: done) rest := by
  have hgap : isGap c ≠ true := by
    intro hgap
    simp only [isGap, Bool.or_eq_true, decide_eq_true_eq] at hgap
    obtain ((rfl | rfl) | rfl) | rfl := hgap <;> cases hc
  rw [tokensOnto.eq_def]
  split
  · rename_i heq
    cases heq
  iterate 10
    · rename_i heq
      obtain ⟨rfl, -⟩ := List.cons.inj heq
      cases hc
  · rename_i heq
    obtain ⟨rfl, rfl⟩ := List.cons.inj heq
    rw [if_neg hgap]
    split
    · rename_i m after hread
      obtain ⟨rfl, rfl⟩ : n = m ∧ rest = after := by simpa [h] using hread
      rfl
    · rename_i hread
      simp [h] at hread

/-- **A number** is cut into one word in front of a text that it may end at. -/
theorem spells_natural {n : Nat} (hn : n < Text.bitBound 64) :
    Spells (Number.natural n).render.toList [.number (.natural n)] := by
  intro done rest hrest
  have hnumber := number?_toDigits hn hrest
  have htext : (Number.natural n).render.toList = Nat.toDigits 10 n := by
    rw [Number.render, Nat.toString_eq_repr, Nat.repr_eq_ofList_toDigits, String.toList_ofList]
  rw [htext]
  obtain ⟨c, cs, hcs⟩ := List.exists_cons_of_ne_nil (Nat.toDigits_ne_nil (n := n) (b := 10))
  have hc : c.isDigit = true :=
    Nat.isDigit_of_mem_toDigits (by omega) (by omega) (n := n) (b := 10) (by simp [hcs])
  rw [hcs] at hnumber ⊢
  exact tokensOnto_number done hc hnumber

/-! ## Values -/

/-- A break and the bracket behind it may follow a number. -/
theorem ends_break (l : Layout) (level : Nat) {c : Char} (hc : c = ']' ∨ c = '\x7d')
    (rest : List Char) : Ends ((l.break level).toList ++ [c] ++ rest) := by
  cases l with
  | compact => rcases hc with rfl | rfl <;> simp [Layout.break, Ends]
  | indented => simp [Layout.break, Ends]

/-- A lead that is not the first may follow a number. -/
theorem ends_lead (l : Layout) (level : Nat) (rest : List Char) :
    Ends ((l.lead level false).toList ++ rest) := by
  simp [Layout.lead, Ends]

theorem ends_writeItems (l : Layout) (level : Nat) (items : List Json) {rest : List Char}
    (hrest : Ends rest) : Ends ((writeItems l level false "" items).toList ++ rest) := by
  cases items with
  | nil => simpa [writeItems] using hrest
  | cons v items =>
      rw [writeItems, writeItems_eq, writeOnto_eq]
      simp only [String.toList_append, List.append_assoc]
      exact ends_lead l level _

theorem ends_writeEntries (l : Layout) (level : Nat) (entries : List (String × Json))
    {rest : List Char} (hrest : Ends rest) :
    Ends ((writeEntries l level false "" entries).toList ++ rest) := by
  cases entries with
  | nil => simpa [writeEntries] using hrest
  | cons e entries =>
      rw [writeEntries, writeEntries_eq, writeOnto_eq]
      simp only [String.toList_append, List.append_assoc]
      exact ends_lead l level _

mutual

/-- **A written value** is cut into its words. -/
theorem spells_writeOnto (l : Layout) (level : Nat) {v : Json} (hv : v.Plain) :
    Spells (writeOnto l level "" v).toList v.tokens := by
  match v with
  | .null => simpa [writeOnto, tokens] using leads_null.spells
  | .bool b => simpa [writeOnto, tokens] using (leads_bool b).spells
  | .number n =>
      rw [Plain] at hv
      obtain ⟨m, hm, rfl⟩ := hv
      simpa [writeOnto, tokens] using spells_natural hm
  | .string s => simpa [writeOnto, tokens] using (leads_quoted s).spells
  | .array [] =>
      simpa [writeOnto, tokens, itemTokens] using
        (leads_openArray.append leads_closeArray).spells
  | .array (v :: rest) =>
      rw [Plain] at hv
      have hitems := spells_writeItems l (level + 1) true hv
      have hend : Leads ((l.break level).toList ++ [']']) [.closeArray] :=
        (leads_break l level).append leads_closeArray
      -- An item may go on until something that cannot be part of it: here the break or
      -- the closing bracket.
      have hbody := hitems.append_leads hend fun after => by
        simpa using ends_break l level (Or.inl rfl) after
      rw [writeOnto, writeItems_eq, tokens]
      · simpa using (leads_openArray.append hbody).spells
      · simp
  | .object [] =>
      simpa [writeOnto, tokens, entryTokens] using
        (leads_openObject.append leads_closeObject).spells
  | .object (e :: rest) =>
      rw [Plain] at hv
      have hentries := spells_writeEntries l (level + 1) true hv
      have hend : Leads ((l.break level).toList ++ ['\x7d']) [.closeObject] :=
        (leads_break l level).append leads_closeObject
      have hbody := hentries.append_leads hend fun after => by
        simpa using ends_break l level (Or.inr rfl) after
      rw [writeOnto, writeEntries_eq, tokens]
      · simpa using (leads_openObject.append hbody).spells
      · simp

theorem spells_writeItems (l : Layout) (level : Nat) (first : Bool) {items : List Json}
    (hitems : PlainItems items) :
    Spells (writeItems l level first "" items).toList (itemTokens first items) := by
  match items with
  | [] => simpa [writeItems, itemTokens] using leads_nil.spells
  | v :: rest =>
      rw [PlainItems] at hitems
      have hvalue := spells_writeOnto l level hitems.1
      have hrest := spells_writeItems l level false hitems.2
      have hends : ∀ after, Ends after →
          Ends ((writeItems l level false "" rest).toList ++ after) := fun _ h =>
        ends_writeItems l level rest h
      rw [writeItems, writeItems_eq, writeOnto_eq, itemTokens]
      simp only [String.empty_append, String.toList_append, List.append_assoc]
      exact (leads_lead l level first).append_spells (hvalue.append hrest hends)

theorem spells_writeEntries (l : Layout) (level : Nat) (first : Bool)
    {entries : List (String × Json)} (hentries : PlainEntries entries) :
    Spells (writeEntries l level first "" entries).toList (entryTokens first entries) := by
  match entries with
  | [] => simpa [writeEntries, entryTokens] using leads_nil.spells
  | (key, v) :: rest =>
      rw [PlainEntries] at hentries
      have hvalue := spells_writeOnto l level hentries.1
      have hrest := spells_writeEntries l level false hentries.2
      have hends : ∀ after, Ends after →
          Ends ((writeEntries l level false "" rest).toList ++ after) := fun _ h =>
        ends_writeEntries l level rest h
      rw [writeEntries, writeEntries_eq, writeOnto_eq, entryTokens]
      simp only [String.empty_append, String.toList_append, List.append_assoc]
      exact (leads_lead l level first).append_spells
        ((leads_quoted key).append_spells
          ((leads_colon l).append_spells (hvalue.append hrest hends)))

end

/-- **Written JSON** is cut into its words. -/
theorem tokens?_render (l : Layout) {v : Json} (hv : v.Plain) :
    tokens? (v.render l).toList = some v.tokens := by
  have hcut := spells_writeOnto l 0 hv [] [] trivial
  rw [List.append_nil, List.append_nil] at hcut
  rw [tokens?, render, hcut, tokensOnto, List.reverse_reverse]

end CodeFence.Json
