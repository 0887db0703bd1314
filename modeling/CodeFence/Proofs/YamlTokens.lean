import CodeFence.Proofs.YamlScans

/-!
# One token of a scan

A scan reads a mark, whose few characters stand in front of it, or a scalar.  Every reader
adds its token behind those that stay, and perhaps the tokens of a key and of a block among
the later ones; and with more text behind it reads the same.

* `IsSorted` — the columns of the open blocks grow inwards;
* `Took` — what a scan is that has read a token;
* `Reads` — a reader of a mark, which reads the same with more text behind; each of them is
  one (`reads_comma?` to `reads_colon?`);
* `Inserted`, `insertKey` — tokens put in front of others, as a key's are;
* `scalar?_eq_some` — what a scalar does to a scan;
* `readerAt`, `readerAt_cases`, `token?_took` — which reader it is;
* `Fixed.finish?` — what has been read stays at the front of all the tokens.
-/

namespace CodeFence.Yaml.Token.Scan

variable {s s' : Scan} {c : Char} {cs rest : List Char} {token : Token} {fuel : Nat}
  {read base : List Token} {n count : Nat}

/-! ## Tokens -/

/-- The columns of the open blocks grow inwards. -/
def IsSorted (s : Scan) : Prop :=
  s.columns.Pairwise (· > ·)

theorem IsSorted.openBlock (h : s.IsSorted) (token : Token) (column count : Nat) :
    (s.openBlock token column count).IsSorted := by
  unfold Scan.openBlock
  split
  · next hopen =>
      have hleast : s.least ≤ column := of_decide_eq_true (Bool.and_eq_true_iff.mp hopen).2
      refine List.pairwise_cons.mpr ⟨fun opened hopened => ?_, h⟩
      unfold least at hleast
      cases hcolumns : s.columns with
      | nil => rw [hcolumns] at hopened; cases hopened
      | cons first columns =>
          rw [hcolumns] at hleast hopened
          have hsorted := h
          rw [IsSorted, hcolumns] at hsorted
          have hle : opened ≤ first := by
            rcases List.mem_cons.mp hopened with rfl | hlater
            · exact Nat.le_refl _
            · exact Nat.le_of_lt ((List.pairwise_cons.mp hsorted).1 opened hlater)
          exact Nat.lt_of_le_of_lt hle hleast
  · exact h

theorem IsSorted.closeBlocks (h : s.IsSorted) (isKept : Nat → Bool) :
    (s.closeBlocks isKept).IsSorted := by
  obtain ⟨closed, heq⟩ := exists_closeBlocks isKept s
  rw [heq]
  exact h.drop

/-- The marks of open brackets. -/
def isOpening : Token → Bool
  | .openList | .openRecord => true
  | _ => false

/-- A scan that has read a token. -/
structure Took (token : Token) (s s' : Scan) : Prop where
  fixed : ∀ {read base n}, s.Fixed read base n → s'.Fixed read (token :: base) n
  head : s'.tokens.head? = some token
  sorted : s.IsSorted → s'.IsSorted
  outer : s'.outer ≠ [] → s.outer ≠ [] ∨ isOpening token = true

/-- The reader reads a token of so many characters, and the same with more text behind. -/
def Reads (read? : Scan → Option Scan) (token : Token) (width : Nat) (s : Scan) : Prop :=
  ∀ s', read? s = some s' → Took token s s' ∧ s'.cursor = s.cursor.advance width ∧
    ∀ more, read? (s.withMore more) = some (s'.withMore more)

theorem reads_comma? (hwidth : 1 ≤ s.cursor.rest.length) : Reads comma? .comma 1 s := by
  intro s' h
  obtain ⟨dropped, hdrop, h⟩ := Option.bind_eq_some_iff.mp h
  obtain rfl := dropKey?_eq_some hdrop
  have hcursor : s'.cursor = s.cursor.advance 1 := Option.some.inj h ▸ rfl
  refine ⟨?_, hcursor, fun more => ?_⟩
  · cases h
    exact ⟨fun hfixed => ⟨(hfixed.push _).tokens, nofun, hfixed.outer⟩, rfl, id, .inl⟩
  · rw [withMore_of_advance hwidth hcursor, comma?, dropKey?_withMore, hdrop, ← Option.some.inj h]
    rfl

theorem reads_bracket? (hwidth : 1 ≤ s.cursor.rest.length) (hopen : isOpening token = true) :
    Reads (bracket? token) token 1 s := by
  intro s' h
  obtain ⟨noted, hnote, h⟩ := Option.bind_eq_some_iff.mp h
  obtain ⟨key, rfl, hkey⟩ := noteKey?_eq_some hnote
  have hcursor : s'.cursor = s.cursor.advance 1 := Option.some.inj h ▸ rfl
  refine ⟨?_, hcursor, fun more => ?_⟩
  · cases h
    refine ⟨fun hfixed => ⟨(hfixed.push _).tokens, nofun, ?_⟩, rfl, id, fun _ => .inr hopen⟩
    exact List.forall_mem_cons.mpr ⟨hfixed.noteKey hkey, hfixed.outer⟩
  · rw [withMore_of_advance hwidth hcursor, bracket?, noteKey?_withMore, hnote,
      ← Option.some.inj h]
    rfl

theorem reads_closing? (hwidth : 1 ≤ s.cursor.rest.length) (token : Token) :
    Reads (closing? token) token 1 s := by
  intro s' h
  obtain ⟨dropped, hdrop, h⟩ := Option.bind_eq_some_iff.mp h
  obtain rfl := dropKey?_eq_some hdrop
  have hcursor : s'.cursor = s.cursor.advance 1 := Option.some.inj h ▸ rfl
  refine ⟨?_, hcursor, fun more => ?_⟩
  · cases h
    refine ⟨fun hfixed => ⟨(hfixed.push _).tokens, fun key hkey => ?_, ?_⟩, rfl, id, ?_⟩
    · have hplace : some key ∈ s.outer := by
        cases houter : s.outer with
        | nil => simp [houter] at hkey
        | cons place outer => simp_all
      exact hfixed.outer _ hplace key rfl
    · exact fun place hplace => hfixed.outer place (List.mem_of_mem_tail hplace)
    · exact fun hne => .inl fun hnil => hne (by simp [hnil])
  · rw [withMore_of_advance hwidth hcursor, closing?, dropKey?_withMore, hdrop,
      ← Option.some.inj h]
    rfl

theorem reads_documentMark? (hwidth : 3 ≤ s.cursor.rest.length) (token : Token) :
    Reads (documentMark? token) token 3 s := by
  intro s' h
  obtain ⟨dropped, hdrop, h⟩ := Option.bind_eq_some_iff.mp h
  obtain rfl := dropKey?_eq_some hdrop
  obtain ⟨closed, heq⟩ := exists_closeBlocks (fun _ => false) s
  have hcursor : s'.cursor = s.cursor.advance 3 := by
    rw [← Option.some.inj h, heq]
    rfl
  refine ⟨?_, hcursor, fun more => ?_⟩
  · cases h
    refine ⟨fun hfixed => ?_, rfl, fun hsorted => hsorted.closeBlocks _, fun hne => .inl ?_⟩
    · have hclosed := hfixed.closeBlocks fun _ => false
      exact ⟨(hclosed.push _).tokens, nofun, hclosed.outer⟩
    · rwa [heq] at hne
  · rw [withMore_of_advance hwidth hcursor, documentMark?, closeBlocks_withMore,
      dropKey?_withMore, hdrop, ← Option.some.inj h, heq]
    rfl

/-- Tokens that have been put in front of others, and perhaps the column of a block. -/
structure Inserted (s s' : Scan) : Prop where
  cursor : s'.cursor = s.cursor
  keyPlace : s'.keyPlace = s.keyPlace
  outer : s'.outer = s.outer
  fixed : ∀ {read base n}, s.Fixed read base n → s'.Fixed read base n
  sorted : s.IsSorted → s'.IsSorted

theorem inserted_openBlock (token : Token) (column : Nat) (s : Scan)
    (hcount : ∀ {read base n}, s.Fixed read base n → n ≤ count) :
    Inserted s (s.openBlock token column count) := by
  refine ⟨?_, ?_, ?_, fun h => h.openBlock token column (hcount h), fun h => h.openBlock ..⟩ <;>
    · unfold openBlock
      split <;> rfl

theorem inserted_openAt? (h : s.openAt? token = some s') : Inserted s s' := by
  unfold openAt? at h
  split at h
  · cases h
    exact ⟨rfl, rfl, rfl, id, id⟩
  · split at h
    · cases h
      exact inserted_openBlock _ _ _ Fixed.le_count
    · cases h

/-- Puts the token of a key where the key began, and opens the block that it begins. -/
def insertKey (key : KeyPlace) (s : Scan) : Scan :=
  (s.insert [.key] key.count).openBlock .beginMapping key.place.column key.count

theorem insertKey_withMore (key : KeyPlace) (more : List Char) (s : Scan) :
    (s.withMore more).insertKey key = (s.insertKey key).withMore more :=
  openBlock_withMore _ _ _ more (s.insert [.key] key.count)

theorem inserted_insertKey {key : KeyPlace} (hkey : s.keyPlace = some key) :
    Inserted s (s.insertKey key) := by
  have hopened := inserted_openBlock .beginMapping key.place.column (s.insert [.key] key.count)
    fun h => h.keyPlace key hkey
  exact ⟨hopened.cursor, hopened.keyPlace, hopened.outer,
    fun h => hopened.fixed (h.insert [.key] (h.keyPlace key hkey)), fun h => hopened.sorted h⟩

theorem colon?_key {key : KeyPlace} (hkey : s.keyPlace = some key) :
    s.colon? =
      some { (s.insertKey key).take .colon 1 with keyPlace := none, keyAllowed := false } := by
  rw [colon?, hkey]
  rfl

theorem colon?_none (hkey : s.keyPlace = none) :
    s.colon? = (s.openAt? .beginMapping).bind fun s =>
      some { s.take .colon 1 with keyAllowed := !s.inFlow } := by
  rw [colon?, hkey]
  rfl

/-- The mark of an item or a key. -/
theorem reads_of_openAt? {read? : Scan → Option Scan} {block : Token} {allowed : Scan → Bool}
    (hread : ∀ s, read? s = (s.openAt? block).bind fun s => s.dropKey?.bind fun s =>
      some { s.take token 1 with keyAllowed := allowed s })
    (hallowed : ∀ more s, allowed (s.withMore more) = allowed s)
    (hwidth : 1 ≤ s.cursor.rest.length) : Reads read? token 1 s := by
  intro s' h
  rw [hread] at h
  obtain ⟨opened, hopen, h⟩ := Option.bind_eq_some_iff.mp h
  obtain ⟨dropped, hdrop, h⟩ := Option.bind_eq_some_iff.mp h
  obtain rfl := dropKey?_eq_some hdrop
  have hopened := inserted_openAt? hopen
  have hcursor : s'.cursor = opened.cursor.advance 1 := Option.some.inj h ▸ rfl
  rw [← hopened.cursor] at hwidth
  refine ⟨?_, hopened.cursor ▸ hcursor, fun more => ?_⟩
  · cases h
    refine ⟨fun hfixed => ?_, rfl, hopened.sorted, fun hne => .inl (hopened.outer ▸ hne)⟩
    exact ⟨((hopened.fixed hfixed).push _).tokens, nofun, (hopened.fixed hfixed).outer⟩
  · rw [withMore_of_advance hwidth hcursor, hread, openAt?_withMore, hopen, Option.map_some,
      Option.bind_some, dropKey?_withMore, hdrop, Option.map_some, Option.bind_some, hallowed,
      ← Option.some.inj h]
    rfl

theorem reads_dash? (hwidth : 1 ≤ s.cursor.rest.length) : Reads dash? .dash 1 s :=
  reads_of_openAt? (fun _ => rfl) (fun _ _ => rfl) hwidth

theorem reads_question? (hwidth : 1 ≤ s.cursor.rest.length) : Reads question? .key 1 s :=
  reads_of_openAt? (fun _ => rfl) (fun _ _ => rfl) hwidth

theorem reads_colon? (hwidth : 1 ≤ s.cursor.rest.length) : Reads colon? .colon 1 s := by
  intro s' h
  -- A colon behind a key puts the key in front of it; a colon alone may open a block.
  cases hkey : s.keyPlace with
  | none =>
      rw [colon?_none hkey] at h
      obtain ⟨opened, hopen, h⟩ := Option.bind_eq_some_iff.mp h
      have hopened := inserted_openAt? hopen
      have hcursor : s'.cursor = opened.cursor.advance 1 := Option.some.inj h ▸ rfl
      rw [← hopened.cursor] at hwidth
      refine ⟨?_, hopened.cursor ▸ hcursor, fun more => ?_⟩
      · cases h
        refine ⟨fun hfixed => ?_, rfl, hopened.sorted, fun hne => .inl (hopened.outer ▸ hne)⟩
        exact ⟨((hopened.fixed hfixed).push _).tokens, (hopened.fixed hfixed).keyPlace,
          (hopened.fixed hfixed).outer⟩
      · have hkey' : (s.withMore more).keyPlace = none := hkey
        rw [withMore_of_advance hwidth hcursor, colon?_none hkey', openAt?_withMore, hopen,
          ← Option.some.inj h]
        rfl
  | some key =>
      rw [colon?_key hkey] at h
      have hopened := inserted_insertKey hkey
      have hcursor : s'.cursor = (s.insertKey key).cursor.advance 1 := Option.some.inj h ▸ rfl
      rw [← hopened.cursor] at hwidth
      refine ⟨?_, hopened.cursor ▸ hcursor, fun more => ?_⟩
      · cases h
        refine ⟨fun hfixed => ?_, rfl, hopened.sorted, fun hne => .inl (hopened.outer ▸ hne)⟩
        exact ⟨((hopened.fixed hfixed).push _).tokens, nofun, (hopened.fixed hfixed).outer⟩
      · have hkey' : (s.withMore more).keyPlace = some key := hkey
        rw [withMore_of_advance hwidth hcursor, colon?_key hkey', insertKey_withMore,
          ← Option.some.inj h]
        rfl

/-- What a scalar does to a scan. -/
theorem scalar?_eq_some (h : s.scalar? = some s') : ∃ key scalar,
    s.noteKey? = some { s with keyPlace := key } ∧
    Yaml.scalar? s.inFlow s.least s.cursor = some scalar ∧
    s' = { ({ s with keyPlace := key } : Scan).push
      (.scalar (String.ofList scalar.text) scalar.isPlain) with
        cursor := scalar.next, keyAllowed := scalar.endsLine } ∧
    Took (.scalar (String.ofList scalar.text) scalar.isPlain) s s' := by
  obtain ⟨noted, hnote, h⟩ := Option.bind_eq_some_iff.mp h
  obtain ⟨key, rfl, hkey⟩ := noteKey?_eq_some hnote
  obtain ⟨scalar, hscalar, h⟩ := Option.bind_eq_some_iff.mp h
  cases h
  refine ⟨_, scalar, hnote, hscalar, rfl, fun hfixed => ?_, rfl, id, .inl⟩
  exact ⟨(hfixed.push _).tokens, hfixed.noteKey hkey, hfixed.outer⟩

/-- The reader of the token that begins with a character. -/
def readerOf (opens closes : Bool) (c : Char) (ends inFlow : Bool) : Scan → Option Scan :=
  if opens then documentMark? .beginDocument
  else if closes then documentMark? .endDocument
  else
    match c with
    | '[' => bracket? .openList
    | ']' => closing? .closeList
    | '\x7b' => bracket? .openRecord
    | '\x7d' => closing? .closeRecord
    | ',' => comma?
    | '-' => if ends then dash? else scalar?
    | '?' => if inFlow || ends then question? else scalar?
    | ':' => if inFlow || ends then colon? else scalar?
    | _ => scalar?

/-- The reader of the token that begins here. -/
def readerAt (c : Char) (rest : List Char) (s : Scan) : Scan → Option Scan :=
  readerOf (s.cursor.column = 0 && opensDocument (c :: rest))
    (s.cursor.column = 0 && closesDocument (c :: rest)) c (endsToken rest) s.inFlow

theorem token?_eq (c : Char) (rest : List Char) (s : Scan) :
    token? c rest s = readerAt c rest s s := by
  unfold token? readerAt readerOf
  split
  · rfl
  split
  · rfl
  -- The dash, the question mark and the colon are split once more, by what is behind them.
  split
  -- A character that is no mark begins a scalar; the marks that may be none are split once more.
  case h_9 => simp_all
  all_goals first | rfl | (split <;> rfl)

/-- A token that is neither a scalar nor the end of a block. -/
def isMark : Token → Bool
  | .scalar .. | .endBlock => false
  | _ => true

/-- The reader reads a mark of so many characters, whatever the scan. -/
def ReadsMark (read? : Scan → Option Scan) (width : Nat) : Prop :=
  ∃ token, isMark token = true ∧ ∀ s, width ≤ s.cursor.rest.length → Reads read? token width s

theorem readerOf_cases (opens closes : Bool) (c : Char) (ends inFlow : Bool) :
    (readerOf opens closes c ends inFlow = scalar? ∧ (opens || closes) = false) ∨
      (isBreak c = false ∧ ReadsMark (readerOf opens closes c ends inFlow) 1) ∨
      ((opens = true ∨ closes = true) ∧ ReadsMark (readerOf opens closes c ends inFlow) 3) := by
  unfold readerOf
  split
  · next h => exact .inr (.inr ⟨.inl h, _, rfl, fun s hw => reads_documentMark? hw _⟩)
  next hopens =>
  split
  · next h => exact .inr (.inr ⟨.inr h, _, rfl, fun s hw => reads_documentMark? hw _⟩)
  next hcloses =>
  have hnone : (opens || closes) = false := by simp [hopens, hcloses]
  split
  · exact .inr (.inl ⟨rfl, _, rfl, fun s hw => reads_bracket? hw rfl⟩)
  · exact .inr (.inl ⟨rfl, _, rfl, fun s hw => reads_closing? hw _⟩)
  · exact .inr (.inl ⟨rfl, _, rfl, fun s hw => reads_bracket? hw rfl⟩)
  · exact .inr (.inl ⟨rfl, _, rfl, fun s hw => reads_closing? hw _⟩)
  · exact .inr (.inl ⟨rfl, _, rfl, fun s hw => reads_comma? hw⟩)
  · split
    · exact .inr (.inl ⟨rfl, _, rfl, fun s hw => reads_dash? hw⟩)
    · exact .inl ⟨rfl, hnone⟩
  · split
    · exact .inr (.inl ⟨rfl, _, rfl, fun s hw => reads_question? hw⟩)
    · exact .inl ⟨rfl, hnone⟩
  · split
    · exact .inr (.inl ⟨rfl, _, rfl, fun s hw => reads_colon? hw⟩)
    · exact .inl ⟨rfl, hnone⟩
  · exact .inl ⟨rfl, hnone⟩

theorem exists_of_any_endsToken {lead : List Char}
    (h : (Text.after? lead cs).any endsToken = true) : ∃ rest, cs = lead ++ rest := by
  cases hafter : Text.after? lead cs with
  | none => simp [hafter] at h
  | some rest => exact ⟨rest, Text.after?_eq_some_iff.mp hafter⟩

/-- A scan reads a mark, whose characters stand in front, or a scalar. -/
theorem readerAt_cases (c : Char) (rest : List Char) (s : Scan) :
    (readerAt c rest s = scalar? ∧ atMark s.cursor.toPlace (c :: rest) = false) ∨
      ∃ taken behind, c :: rest = taken ++ behind ∧ taken ≠ [] ∧
      (∀ d ∈ taken, isBreak d = false) ∧ ReadsMark (readerAt c rest s) taken.length := by
  rcases readerOf_cases (s.cursor.column = 0 && opensDocument (c :: rest))
      (s.cursor.column = 0 && closesDocument (c :: rest)) c (endsToken rest) s.inFlow with
    ⟨hscalar, hnone⟩ | ⟨hbreak, hreads⟩ | ⟨hmark, hreads⟩
  · rw [← Bool.and_or_distrib_left] at hnone
    exact .inl ⟨hscalar, hnone⟩
  · exact .inr ⟨[c], rest, rfl, List.cons_ne_nil c [], by simpa using hbreak, hreads⟩
  · rcases hmark with hopens | hcloses
    · obtain ⟨behind, heq⟩ := exists_of_any_endsToken (Bool.and_eq_true_iff.mp hopens).2
      exact .inr ⟨_, behind, heq, List.cons_ne_nil _ _, by simp [isBreak], hreads⟩
    · obtain ⟨behind, heq⟩ := exists_of_any_endsToken (Bool.and_eq_true_iff.mp hcloses).2
      exact .inr ⟨_, behind, heq, List.cons_ne_nil _ _, by simp [isBreak], hreads⟩

theorem readerAt_withMore {place : Place} (hends : EndsLine place (c :: rest))
    (hbreak : isBreak c = false) (more : List Char) (s : Scan) :
    readerAt c (rest ++ more) (s.withMore more) = readerAt c rest s := by
  obtain ⟨d, hd, hbreakd⟩ := hends.exists_break (List.cons_ne_nil c rest)
  have hdash : d ≠ '-' := by rintro rfl; cases hbreakd
  have hdot : d ≠ '.' := by rintro rfl; cases hbreakd
  have hrest : rest ≠ [] := hends.ne_nil (by simp [hbreak])
  rw [readerAt, readerAt, endsToken_append hrest, ← List.cons_append,
    opensDocument_append hd hdash, closesDocument_append hd hdot]
  rfl

/-- **One token.** A scan reads a mark or a scalar. -/
theorem token?_took (hrest : s.cursor.rest = c :: rest) (h : token? c rest s = some s') :
    (∃ token, isMark token = true ∧ Took token s s') ∨
      (s.scalar? = some s' ∧ atMark s.cursor.toPlace s.cursor.rest = false) := by
  rw [token?_eq] at h
  rcases readerAt_cases c rest s with
    ⟨hscalar, hnone⟩ | ⟨taken, behind, heq, -, -, token, hmark, hreads⟩
  · rw [hscalar] at h
    exact .inr ⟨h, hrest ▸ hnone⟩
  · have hwidth : taken.length ≤ s.cursor.rest.length := by simp [hrest, heq]
    exact .inl ⟨token, hmark, (hreads s hwidth s' h).1⟩

theorem exists_took (hrest : s.cursor.rest = c :: rest) (h : token? c rest s = some s') :
    ∃ token, token ≠ .endBlock ∧ Took token s s' := by
  rcases token?_took hrest h with ⟨token, hmark, htook⟩ | ⟨hscalar, -⟩
  · refine ⟨token, fun heq => ?_, htook⟩
    rw [heq] at hmark
    cases hmark
  · obtain ⟨_, _, -, -, -, htook⟩ := scalar?_eq_some hscalar
    exact ⟨.scalar _ _, nofun, htook⟩

/-! ## Runs -/

theorem Fixed.mono (h : s.Fixed read base n) {base' : List Token} (hbase : base' ⊆ base) :
    s.Fixed read base' n := by
  obtain ⟨later, htokens, hcount, hlater⟩ := h.tokens
  exact ⟨⟨later, htokens, hcount, List.Subset.trans hbase hlater⟩, h.keyPlace, h.outer⟩

theorem dropStaleKey?_eq_some (h : s.dropStaleKey? = some s') :
    s' = s ∨ s' = { s with keyPlace := none } := by
  unfold dropStaleKey? at h
  split at h
  · exact .inr (dropKey?_eq_some h)
  · exact .inl (Option.some.inj h).symm

theorem Fixed.ready (h : s.Fixed read base n) (hready : s.skip.dropStaleKey? = some s') :
    s'.Fixed read base n := by
  have hskip : s.skip.Fixed read base n := ⟨h.tokens, h.keyPlace, h.outer⟩
  rcases dropStaleKey?_eq_some hready with rfl | rfl
  · exact hskip
  · exact hskip.dropKey

/-- **What has been read stays.** The tokens of a scan begin with those that have been read. -/
theorem Fixed.finish? {tokens : List Token} (hfixed : s.Fixed read base n)
    (h : s.finish? fuel = some tokens) :
    ∃ more, tokens = read.reverse ++ more ∧ base ⊆ more := by
  induction fuel generalizing s base with
  | zero => cases h
  | succ fuel ih =>
      rw [finish?_succ] at h
      obtain ⟨ready, hready, h⟩ := Option.bind_eq_some_iff.mp h
      have hfixed := hfixed.ready hready
      unfold proceed? at h
      split at h
      · obtain ⟨closed, hclosed, rfl⟩ := Option.map_eq_some_iff.mp h
        obtain rfl := dropKey?_eq_some hclosed
        obtain ⟨later, htokens, -, hbase⟩ := (hfixed.closeBlocks fun _ => false).tokens
        refine ⟨later.reverse, ?_, fun t ht => List.mem_reverse.mpr (hbase ht)⟩
        rw [htokens, List.reverse_append]
      · next c rest hrest =>
          obtain ⟨next, hnext, h⟩ := Option.bind_eq_some_iff.mp h
          have hclosed := hfixed.closeBlocks fun opened => opened ≤ ready.cursor.column
          rw [← cursor_closeBlocks (fun opened => opened ≤ ready.cursor.column) ready] at hrest
          obtain ⟨token, -, htook⟩ := exists_took hrest hnext
          obtain ⟨more, rfl, hmore⟩ := ih (htook.fixed hclosed) h
          exact ⟨more, rfl, fun t ht => hmore (List.mem_cons_of_mem token ht)⟩

end CodeFence.Yaml.Token.Scan
