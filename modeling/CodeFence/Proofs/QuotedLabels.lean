import Mathlib.Data.List.Basic
import Mathlib.Data.List.Induction
import CodeFence.Proofs.WordCuts
import CodeFence.Proofs.WrittenLabels

/-!
# The quotes around a label

The reader that cuts the words goes from character to character and knows which quote
ends the span that it is in; the reader of a label looks at the two ends of the label
only.  A label that is one quoted span has its quotes taken off.  But so has one whose
last quote is escaped, or that ends with a quote of a later span: the two readers agree
on a label between two quotes of one kind exactly if every such quote inside has a
backslash in front that escapes it, and the last one has not.

* `Place.behind`, `IsCut`, `exists_place_of_mem_wordChars` — where the reader stands behind
  some characters, and where it stands in front of a word;
* `IsSpan`, `TakesQuotes` — a text that is one quoted span, and one whose ends are taken
  for a pair of quotes;
* `Escapes`, `escaped_behind` — which characters a backslash escapes, from the text alone;
* `isSpan_iff`, `takesQuotes_iff` — both said of the text;
* `takesQuotes_exact` — where the two readers agree.
-/

namespace CodeFence.InfoString

variable {done : List (List Char)} {current cs raw w : List Char} {quote quote' : Option Char}
  {c q : Char} {p : Place}

/-! ## Where the reader stands -/

/-- The place behind some characters. -/
def Place.behind (p : Place) (cs : List Char) : Place :=
  cs.foldl Place.next p

namespace Place

theorem behind_append (p : Place) (front back : List Char) :
    p.behind (front ++ back) = (p.behind front).behind back :=
  List.foldl_append

theorem behind_singleton (p : Place) (c : Char) : p.behind [c] = p.next c := rfl

theorem behind_concat (p : Place) (front : List Char) (c : Char) :
    p.behind (front ++ [c]) = (p.behind front).next c :=
  p.behind_append front [c]

theorem next_escaped (h : p.escaped = true) (c : Char) : p.next c = { p with escaped := false } :=
  if_pos h

theorem next_backslash (h : p.escaped = false) : p.next '\\' = { p with escaped := true } := by
  simp [next, h]

/-- In a span only the quote that ends it changes anything. -/
theorem next_in_span (h : p.escaped = false) (hquote : p.quote = some q) (hc : c ≠ '\\') :
    p.next c = { p with quote := if c = q then none else some q } := by
  obtain ⟨quote, escaped⟩ := p
  subst h hquote
  by_cases hclose : c = q
  · subst hclose
    simp [next, hc]
  · simp [next, hc, hclose]

/-- Outside of spans a quote opens one. -/
theorem next_outside (h : p.escaped = false) (hquote : p.quote = none) (hc : c ≠ '\\') :
    p.next c = { p with quote := if isQuote c then some c else none } := by
  obtain ⟨quote, escaped⟩ := p
  subst h hquote
  by_cases hopen : isQuote c = true <;> simp [next, hc, hopen]

/-- Two characters that are read together leave the span as it is. -/
theorem behind_pair (quote : Option Char) (c : Char) (cs : List Char) :
    Place.behind ⟨quote, false⟩ ('\\' :: c :: cs) = Place.behind ⟨quote, false⟩ cs := by
  rw [behind, behind, List.foldl_cons, List.foldl_cons, next_backslash rfl, next_escaped rfl]

end Place

/-- Where a word comes from: it is done, or it goes on with the current one, or it begins further
behind, where the reader stands in no span and nothing is escaped. -/
def IsCut (done : List (List Char)) (current : List Char) (quote : Option Char)
    (cs w : List Char) : Prop :=
  w ∈ done ∨ (∃ more after, w = current.reverse ++ more ∧ cs = more ++ after) ∨
    ∃ before after, cs = before ++ w ++ after ∧ Place.behind ⟨quote, false⟩ before = {}

/-- A word behind characters that the current one takes along. -/
theorem IsCut.behind_taken (taken : List Char) (hne : w ≠ [])
    (h : IsCut done (taken.reverse ++ current) quote' cs w)
    (hplace : cs ≠ [] → Place.behind ⟨quote, false⟩ taken = ⟨quote', false⟩) :
    IsCut done current quote (taken ++ cs) w := by
  rcases h with hdone | ⟨more, after, rfl, rfl⟩ | ⟨before, after, rfl, hbefore⟩
  · exact .inl hdone
  · exact .inr (.inl ⟨taken ++ more, after, by simp, by simp⟩)
  · refine .inr (.inr ⟨taken ++ before, after, by simp, ?_⟩)
    rw [Place.behind_append, hplace (by simp [hne]), hbefore]

/-- A word behind a blank, which ends the current one. -/
theorem IsCut.behind_blank (h : IsCut (endWord done current) [] none cs w)
    (hblank : Place.next ⟨none, false⟩ c = ⟨none, false⟩) : IsCut done current none (c :: cs) w := by
  rcases h with hdone | ⟨more, after, rfl, rfl⟩ | ⟨before, after, rfl, hbefore⟩
  · rw [endWord] at hdone
    split at hdone
    · exact .inl hdone
    · rcases List.mem_cons.mp hdone with rfl | hdone
      · exact .inr (.inl ⟨[], c :: cs, by simp⟩)
      · exact .inl hdone
  · exact .inr (.inr ⟨[c], after, by simp, hblank⟩)
  · refine .inr (.inr ⟨c :: before, after, rfl, ?_⟩)
    rw [Place.behind, List.foldl_cons, hblank]
    exact hbefore

theorem isCut_of_mem_wordsAfter (hw : w ∈ wordsAfter done current quote cs) (hne : w ≠ []) :
    IsCut done current quote cs w := by
  fun_induction wordsAfter done current quote cs with
  | case1 done current quote =>
      rw [List.mem_reverse, endWord] at hw
      split at hw
      · exact .inl hw
      · rcases List.mem_cons.mp hw with rfl | hw
        · exact .inr (.inl ⟨[], [], by simp⟩)
        · exact .inl hw
  | case2 done current quote c rest ih =>
      exact IsCut.behind_taken ['\\', c] hne (ih hw) fun _ => Place.behind_pair quote c []
  | case3 done current c rest hpair q ih =>
      refine IsCut.behind_taken [c] hne (ih hw) fun hrest => ?_
      rw [Place.behind_singleton]
      exact Place.next_in_span rfl rfl ((eq_nil_or_ne_backslash hpair).resolve_left hrest)
  | case4 done current c rest hpair hquote ih =>
      refine IsCut.behind_taken [c] hne (ih hw) fun _ => ?_
      rw [Place.behind_singleton, Place.next_outside rfl rfl (ne_backslash_of_isQuote hquote),
        if_pos hquote]
  | case5 done current c rest hpair hquote hblank ih =>
      refine (ih hw).behind_blank ?_
      rw [Place.next_outside rfl rfl (ne_backslash_of_isBlank hblank), if_neg hquote]
  | case6 done current c rest hpair hquote hblank ih =>
      refine IsCut.behind_taken [c] hne (ih hw) fun hrest => ?_
      rw [Place.behind_singleton, Place.next_outside rfl rfl
        ((eq_nil_or_ne_backslash hpair).resolve_left hrest), if_neg hquote]

/-- **In front of every word** the reader stands in no span, and nothing is escaped. -/
theorem exists_place_of_mem_wordChars (hw : w ∈ wordChars cs) (hne : w ≠ []) :
    ∃ before after, cs = before ++ w ++ after ∧ Place.behind {} before = {} := by
  rcases isCut_of_mem_wordsAfter hw hne with hdone | ⟨more, after, rfl, rfl⟩ | hplace
  · cases hdone
  · exact ⟨[], after, rfl, rfl⟩
  · exact hplace

/-! ## Escaped characters -/

/-- The characters escape the one behind them: they end with an odd number of
backslashes, as each pair of backslashes is one that is escaped. -/
def Escapes (cs : List Char) : Prop :=
  (cs.reverse.takeWhile (· = '\\')).length % 2 = 1

instance : DecidablePred Escapes := fun cs =>
  inferInstanceAs (Decidable ((cs.reverse.takeWhile (· = '\\')).length % 2 = 1))

theorem escapes_concat (cs : List Char) (c : Char) :
    Escapes (cs ++ [c]) ↔ c = '\\' ∧ ¬ Escapes cs := by
  unfold Escapes
  rw [List.reverse_append, List.reverse_singleton, List.singleton_append, List.takeWhile_cons]
  by_cases hc : c = '\\'
  · simp only [hc, decide_true, if_true, List.length_cons, true_and]
    omega
  · simp [hc]

/-- **What is escaped** can be told from the text: from where the reader is not right
behind a backslash, it is so again behind an odd number of them. -/
theorem escaped_behind (h : p.escaped = false) (cs : List Char) :
    (p.behind cs).escaped = true ↔ Escapes cs := by
  induction cs using List.reverseRecOn with
  | nil => simp [Place.behind, h, Escapes]
  | append_singleton front c ih =>
      rw [Place.behind_concat, escapes_concat, ← ih]
      cases hescaped : (p.behind front).escaped with
      | true => simp [Place.next_escaped hescaped]
      | false =>
          by_cases hc : c = '\\'
          · subst hc
            simp [Place.next_backslash hescaped]
          · cases hquote : (p.behind front).quote with
            | none => simp [Place.next_outside hescaped hquote hc, hescaped, hc]
            | some q => simp [Place.next_in_span hescaped hquote hc, hescaped, hc]

/-! ## One quoted span -/

/-- The text is one quoted span: the reader opens a span at its first character, is in
this span behind every further one, and is out of it behind the last. -/
structure IsSpan (q : Char) (raw : List Char) : Prop where
  opens : (Place.behind {} (raw.take 1)).quote = some q
  stays : ∀ i, 1 ≤ i → i < raw.length → (Place.behind {} (raw.take i)).quote = some q
  closes : (Place.behind {} raw).quote = none

/-- **A span is opened** by a quote, and ends with a quote of the same kind. -/
theorem next_quote_eq_some_iff : (Place.next {} c).quote = some q ↔ isQuote q = true ∧ c = q := by
  by_cases hc : c = '\\'
  · subst hc
    constructor
    · intro h
      cases h
    · rintro ⟨hq, rfl⟩
      exact absurd hq (by decide)
  · rw [Place.next_outside rfl rfl hc]
    split
    · rename_i hquote
      constructor
      · intro h
        obtain rfl := Option.some.inj h
        exact ⟨hquote, rfl⟩
      · rintro ⟨-, rfl⟩
        rfl
    · rename_i hquote
      constructor
      · intro h
        cases h
      · rintro ⟨hq, rfl⟩
        exact absurd hq hquote

theorem behind_quote (hq : isQuote q = true) (cs : List Char) :
    Place.behind {} (q :: cs) = Place.behind ⟨some q, false⟩ cs := by
  rw [Place.behind, List.foldl_cons, Place.next_outside rfl rfl (ne_backslash_of_isQuote hq),
    if_pos hq]
  rfl

/-- **A span is closed** by a quote of its kind that is not escaped. -/
theorem closes_iff (hq : isQuote q = true) {inner : List Char}
    (hopen : (Place.behind ⟨some q, false⟩ inner).quote = some q) :
    (Place.behind ⟨some q, false⟩ (inner ++ [c])).quote = none ↔ c = q ∧ ¬ Escapes inner := by
  rw [Place.behind_concat, ← @escaped_behind ⟨some q, false⟩ rfl inner]
  cases hplace : (Place.behind ⟨some q, false⟩ inner).escaped with
  | true => simp [Place.next_escaped hplace, hopen]
  | false =>
      by_cases hc : c = '\\'
      · have hne : c ≠ q := fun heq => ne_backslash_of_isQuote hq (heq.symm.trans hc)
        simp only [hne, false_and, iff_false]
        rw [hc, Place.next_backslash hplace, hopen]
        exact Option.some_ne_none q
      · rw [Place.next_in_span hplace hopen hc]
        by_cases hclose : c = q <;> simp [hclose]

/-- **A span stays open** as long as each quote of its kind is escaped. -/
theorem stays_open_iff (hq : isQuote q = true) (inner : List Char) :
    (∀ front back, inner = front ++ back → (Place.behind ⟨some q, false⟩ front).quote = some q) ↔
      ∀ front back, inner = front ++ q :: back → Escapes front := by
  have hescaped := @escaped_behind ⟨some q, false⟩ rfl
  constructor
  · intro hopen front back hsplit
    by_contra hbare
    have hplace : (Place.behind ⟨some q, false⟩ front).escaped = false := by
      rwa [← hescaped, Bool.not_eq_true] at hbare
    have hbehind := hopen (front ++ [q]) back (by simp [hsplit])
    rw [Place.behind_concat, Place.next_in_span hplace (hopen front _ hsplit)
      (ne_backslash_of_isQuote hq), if_pos rfl] at hbehind
    cases hbehind
  · intro hall front
    induction front using List.reverseRecOn with
    | nil => exact fun _ _ => rfl
    | append_singleton front c ih =>
        intro back hsplit
        have hcut : inner = front ++ c :: back := by simp [hsplit]
        have hopen := ih (c :: back) hcut
        rw [Place.behind_concat]
        cases hplace : (Place.behind ⟨some q, false⟩ front).escaped with
        | true => rw [Place.next_escaped hplace, hopen]
        | false =>
            by_cases hc : c = '\\'
            · rw [hc, Place.next_backslash hplace, hopen]
            · have hne : c ≠ q := by
                rintro rfl
                rw [(hescaped front).mpr (hall front back hcut)] at hplace
                cases hplace
              rw [Place.next_in_span hplace hopen hc, if_neg hne]

/-- **One quoted span** is a text between two quotes of one kind, of which each one
inside is escaped, and the last one is not. -/
theorem isSpan_iff : IsSpan q raw ↔ isQuote q = true ∧ ∃ inner, raw = q :: inner ++ [q] ∧
    (∀ front back, inner = front ++ q :: back → Escapes front) ∧ ¬ Escapes inner := by
  constructor
  · rintro ⟨hopens, hstays, hcloses⟩
    obtain ⟨hq, rest, rfl⟩ : isQuote q = true ∧ ∃ rest, raw = q :: rest := by
      cases raw with
      | nil => cases hopens
      | cons c rest =>
          obtain ⟨hq, rfl⟩ := next_quote_eq_some_iff.mp hopens
          exact ⟨hq, rest, rfl⟩
    rcases List.eq_nil_or_concat' rest with rfl | ⟨inner, last, rfl⟩
    · rw [behind_quote hq] at hcloses
      cases hcloses
    · have hopen : ∀ front back, inner = front ++ back →
          (Place.behind ⟨some q, false⟩ front).quote = some q := by
        rintro front back rfl
        have hfront := hstays (front.length + 1) (by omega) (by simp)
        rwa [List.take_succ_cons, List.append_assoc, List.take_left, behind_quote hq] at hfront
      rw [behind_quote hq, closes_iff hq (hopen inner [] (by simp))] at hcloses
      obtain ⟨rfl, hlast⟩ := hcloses
      exact ⟨hq, inner, rfl, (stays_open_iff hq inner).mp hopen, hlast⟩
  · rintro ⟨hq, inner, rfl, hinside, hlast⟩
    have hopen := (stays_open_iff hq inner).mpr hinside
    refine ⟨next_quote_eq_some_iff.mpr ⟨hq, rfl⟩, ?_, ?_⟩
    · intro i hi hlength
      obtain ⟨k, rfl⟩ := Nat.exists_eq_add_of_le' hi
      have hk : k ≤ inner.length := by
        simp at hlength
        omega
      rw [List.cons_append, List.take_succ_cons, List.take_append_of_le_length hk,
        behind_quote hq]
      exact hopen _ (inner.drop k) (List.take_append_drop k inner).symm
    · rw [List.cons_append, behind_quote hq]
      exact (closes_iff hq (hopen inner [] (by simp))).mpr ⟨rfl, hlast⟩

/-! ## What the reader of a label takes off -/

/-- The reader of a label takes a first and a last character off as quotes. -/
def TakesQuotes (raw : List Char) : Prop :=
  ∃ first last, raw = first :: dropQuotes raw ++ [last]

/-- **The reader of a label** takes off two quotes of one kind at the ends, whatever
they are inside. -/
theorem takesQuotes_iff :
    TakesQuotes raw ↔ ∃ q inner, isQuote q = true ∧ raw = q :: inner ++ [q] := by
  constructor
  · rintro ⟨first, last, hraw⟩
    have hwithin : ∀ q inner, (Text.after? [q] raw).bind (Text.before? [q]) = some inner →
        raw = q :: inner ++ [q] := by
      intro q inner h
      obtain ⟨rest, hafter, hbefore⟩ := Option.bind_eq_some_iff.mp h
      rw [Text.after?_eq_some_iff.mp hafter, Text.before?_eq_some_iff.mp hbefore]
      rfl
    by_contra hnone
    have hkept : dropQuotes raw = raw := by
      have hno : ∀ q, isQuote q = true →
          (Text.after? [q] raw).bind (Text.before? [q]) = none := by
        intro q hq
        rw [Option.eq_none_iff_forall_ne_some]
        exact fun inner h => hnone ⟨q, inner, hq, hwithin q inner h⟩
      unfold dropQuotes
      dsimp only
      rw [hno '"' (by decide), hno '\'' (by decide)]
      rfl
    have hlength := congrArg List.length hraw
    rw [hkept] at hlength
    simp at hlength
    omega
  · rintro ⟨q, inner, hq, rfl⟩
    exact ⟨q, q, by rw [dropQuotes_quoted hq]⟩

/-- **Where the two readers agree on quotes.**  In front of the value of a directive
for a label, the reader that cuts the words stands in no span.  If the value is one
quoted span, the reader of the label takes its quotes off.  It takes no others off
exactly if in a value between two quotes of one kind each such quote inside is escaped
and the last one is not. -/
theorem takesQuotes_exact (info : String) (d : LabelDirective) (raw : List Char)
    (hword : d.lead.toList ++ raw ∈ wordChars info.toList) :
    (∃ before after, info.toList = before ++ d.lead.toList ++ raw ++ after ∧
      Place.behind {} (before ++ d.lead.toList) = {}) ∧
    (∀ q, IsSpan q raw → TakesQuotes raw) ∧
    ((TakesQuotes raw ↔ ∃ q, IsSpan q raw) ↔
      ∀ q inner, isQuote q = true → raw = q :: inner ++ [q] →
        (∀ front back, inner = front ++ q :: back → Escapes front) ∧ ¬ Escapes inner) := by
  have htaken : ∀ q, IsSpan q raw → TakesQuotes raw := by
    intro q hspan
    obtain ⟨hq, inner, hraw, -⟩ := isSpan_iff.mp hspan
    exact takesQuotes_iff.mpr ⟨q, inner, hq, hraw⟩
  refine ⟨?_, htaken, ?_⟩
  · have hne : d.lead.toList ++ raw ≠ [] := by
      cases d <;> simp [LabelDirective.lead]
    have hlead : Place.behind {} d.lead.toList = {} := by
      cases d <;> rfl
    obtain ⟨before, after, htext, hplace⟩ := exists_place_of_mem_wordChars hword hne
    refine ⟨before, after, by simp [htext], ?_⟩
    rw [Place.behind_append, hplace, hlead]
  · constructor
    · intro hagree q inner hq hraw
      obtain ⟨q', hspan⟩ := hagree.mp (takesQuotes_iff.mpr ⟨q, inner, hq, hraw⟩)
      obtain ⟨-, inner', hraw', hinside⟩ := isSpan_iff.mp hspan
      rw [hraw] at hraw'
      obtain ⟨rfl, htail⟩ := List.cons_eq_cons.mp hraw'
      obtain ⟨rfl, -⟩ := List.append_inj' htail rfl
      exact hinside
    · intro hinside
      refine ⟨fun htakes => ?_, fun hsome => hsome.elim htaken⟩
      obtain ⟨q, inner, hq, hraw⟩ := takesQuotes_iff.mp htakes
      exact ⟨q, isSpan_iff.mpr ⟨hq, inner, hraw, hinside q inner hq hraw⟩⟩

/-- A value with escaped quotes inside, between two other words. -/
theorem takesQuotes_exact_escaped :
    let info := "js title:\"say \\\"hi\\\"\" ln"
    let raw := "\"say \\\"hi\\\"\"".toList
    (LabelDirective.title.lead.toList ++ raw ∈ wordChars info.toList ∧ IsSpan '"' raw) ∧
      TakesQuotes raw := by
  intro info raw
  have hword : LabelDirective.title.lead.toList ++ raw ∈ wordChars info.toList := by decide
  have hspan : IsSpan '"' raw := by
    have hstays : ∀ i < raw.length, 1 ≤ i → (Place.behind {} (raw.take i)).quote = some '"' := by
      decide
    exact ⟨rfl, fun i hi hlength => hstays i hlength hi, rfl⟩
  exact ⟨⟨hword, hspan⟩, (takesQuotes_exact info .title raw hword).2.1 _ hspan⟩

/-- A value whose last quote is escaped, so that its span does not end.  Its first and
its last quote are taken off all the same, and the backslash stays. -/
theorem takesQuotes_of_escaped_end :
    let info := "text title:\"a\\\""
    let raw := "\"a\\\"".toList
    LabelDirective.title.lead.toList ++ raw ∈ wordChars info.toList ∧
      TakesQuotes raw ∧ (¬ ∃ q, IsSpan q raw) ∧ (parse info).config.title = some "a\\" := by
  intro info raw
  have htakes : TakesQuotes raw := takesQuotes_iff.mpr ⟨'"', "a\\".toList, by decide, rfl⟩
  have hopen : (Place.behind {} raw).quote = some '"' := rfl
  refine ⟨by decide, htakes, ?_, by decide⟩
  rintro ⟨q, hspan⟩
  rw [hspan.closes] at hopen
  cases hopen

end CodeFence.InfoString
