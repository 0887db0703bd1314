import Mathlib.Data.List.Basic
import CodeFence.Syntax.Highlights

/-!
# Where the tokens of a capture lie

A capture has at most one token in a row.  It reaches from the column where the capture
starts, or from the first one in later rows, to the column where it stops, or to the end
in earlier rows.  Counted in bytes, the token has just the characters that end behind
the start of the capture and no later than its stop.

* `placeOf`, `Position.Before` — the places of a source and their order;
* `lt_charColumn_iff` — columns in characters and in bytes;
* `tokenOn?`, `onRow_singleton` — the token of a capture in a row;
* `Capture.Has`, `exists_covers_iff` — the characters that it has;
* `onRow_ofCaptures`, `filter_mergeSort_comesBefore` — the tokens of a row, in order;
* `Highlights.ofCaptures_exact` — the tokens of a source.
-/

namespace CodeFence.Syntax

/-! ## Places -/

/-- How many bytes a text has. -/
def byteLength : List Char → Nat
  | [] => 0
  | c :: rest => c.utf8Size + byteLength rest

/-- The place in front of a character of a row. -/
def placeOf (line : List Char) (row column : Nat) : Position :=
  ⟨row, byteLength (line.take column)⟩

/-- A place is in front of another one. -/
def Position.Before (p q : Position) : Prop :=
  p.row < q.row ∨ p.row = q.row ∧ p.byte < q.byte

instance (p q : Position) : Decidable (p.Before q) :=
  inferInstanceAs (Decidable (p.row < q.row ∨ p.row = q.row ∧ p.byte < q.byte))

/-- A place of a source that is inside no character. -/
def IsBoundary (code : List Char) (p : Position) : Prop :=
  ∃ line column, (Text.splitAt '\n' code)[p.row]? = some line ∧ column ≤ line.length ∧
    p = placeOf line p.row column

variable {line : List Char} {row column : Nat} {c : Capture}

theorem byteLength_append (front back : List Char) :
    byteLength (front ++ back) = byteLength front + byteLength back := by
  induction front with
  | nil => simp [byteLength]
  | cons a rest ih =>
      rw [List.cons_append, byteLength, byteLength, ih]
      omega

theorem byteLength_pos {cs : List Char} (h : cs ≠ []) : 0 < byteLength cs := by
  cases cs with
  | nil => exact absurd rfl h
  | cons a rest =>
      have hpos := a.utf8Size_pos
      rw [byteLength]
      omega

/-- More characters have more bytes. -/
theorem byteLength_take_lt {i j : Nat} (hij : i < j) (hj : j ≤ line.length) :
    byteLength (line.take i) < byteLength (line.take j) := by
  obtain ⟨n, rfl⟩ := Nat.exists_eq_add_of_lt hij
  have hmore : (line.drop i).take (n + 1) ≠ [] := by
    intro hnil
    have hlength := congrArg List.length hnil
    rw [List.length_take, List.length_drop, List.length_nil] at hlength
    omega
  have hpos := byteLength_pos hmore
  rw [Nat.add_assoc, List.take_add, byteLength_append]
  omega

theorem byteLength_take_lt_iff {i j : Nat} (hi : i ≤ line.length) (hj : j ≤ line.length) :
    byteLength (line.take i) < byteLength (line.take j) ↔ i < j := by
  constructor
  · intro hlt
    by_contra hle
    rcases Nat.lt_or_eq_of_le (Nat.not_lt.mp hle) with hji | rfl
    · have hback := byteLength_take_lt hji hi
      omega
    · exact Nat.lt_irrefl _ hlt
  · intro hij
    exact byteLength_take_lt hij hj

/-- From a place inside no character, a character ends behind it exactly if it does not
start in front of it. -/
theorem IsBoundary.before_succ_iff {code : List Char} {p : Position} (hp : IsBoundary code p)
    (hline : (Text.splitAt '\n' code)[row]? = some line) (hcolumn : column < line.length) :
    p.Before (placeOf line row (column + 1)) ↔ ¬ (placeOf line row column).Before p := by
  obtain ⟨pline, k, hpline, hk, hplace⟩ := hp
  unfold Position.Before placeOf
  by_cases hrow : p.row = row
  · rw [hrow, hline] at hpline
    obtain rfl := Option.some.inj hpline
    have hbyte : p.byte = byteLength (line.take k) := congrArg Position.byte hplace
    have hafter := byteLength_take_lt_iff hk (Nat.succ_le_of_lt hcolumn)
    have hbefore := byteLength_take_lt_iff (Nat.le_of_lt hcolumn) hk
    dsimp only
    rw [hrow, hbyte, hafter, hbefore]
    omega
  · dsimp only
    omega

/-! ## Columns -/

theorem charColumn_le (line : List Char) (byte : Nat) : charColumn line byte ≤ line.length := by
  induction line generalizing byte with
  | nil => exact Nat.le_refl 0
  | cons a rest ih =>
      have hrest := ih (byte - a.utf8Size)
      rw [charColumn, List.length_cons]
      split <;> omega

/-- **Columns in characters and in bytes.**  A character is in front of the column of a
byte exactly if it ends no later than that byte. -/
theorem lt_charColumn_iff {byte : Nat} (h : column < line.length) :
    column < charColumn line byte ↔ byteLength (line.take (column + 1)) ≤ byte := by
  induction line generalizing column byte with
  | nil => cases h
  | cons a rest ih =>
      have hbytes : byteLength ((a :: rest).take (column + 1)) =
          a.utf8Size + byteLength (rest.take column) := by
        simp [byteLength]
      rw [charColumn, hbytes]
      by_cases hinside : byte < a.utf8Size
      · rw [if_pos hinside]
        omega
      · rw [if_neg hinside]
        cases column with
        | zero =>
            have hnone : byteLength (rest.take 0) = 0 := rfl
            omega
        | succ k =>
            have hrest := @ih k (byte - a.utf8Size) (Nat.lt_of_succ_lt_succ h)
            omega

/-! ## The token of a capture in a row -/

/-- The token that a capture with a scope has between its columns in a row, unless it
would be empty. -/
def tokenBetween? (line : List Char) (row : Nat) (c : Capture) (scope : Nat) : Option Token :=
  if (columnsIn c row line).1 < (columnsIn c row line).2 then
    some ⟨(columnsIn c row line).1, (columnsIn c row line).2, scope⟩
  else none

/-- The token of a capture in a row of a source. -/
def tokenOn? (line : List Char) (row : Nat) (c : Capture) : Option Token :=
  if c.start.row ≤ row ∧ row ≤ c.stop.row then
    (scopeId? c.name).bind (tokenBetween? line row c)
  else none

theorem tokenOn?_eq_some_iff {t : Token} :
    tokenOn? line row c = some t ↔
      (c.start.row ≤ row ∧ row ≤ c.stop.row) ∧ scopeId? c.name = some t.scope ∧
        columnsIn c row line = (t.start, t.stop) ∧ t.start < t.stop := by
  obtain ⟨start, stop, scope⟩ := t
  unfold tokenOn? tokenBetween?
  constructor
  · intro h
    split at h
    · rename_i hrow
      obtain ⟨found, hfound, htoken⟩ := Option.bind_eq_some_iff.mp h
      split at htoken
      · rename_i hlt
        obtain ⟨rfl, rfl, rfl⟩ := Token.mk.inj (Option.some.inj htoken)
        exact ⟨hrow, hfound, rfl, hlt⟩
      · cases htoken
    · cases h
  · rintro ⟨hrow, hscope, hcolumns, hlt⟩
    rw [if_pos hrow, hscope, Option.bind_some, hcolumns]
    exact if_pos hlt

/-- What is said of the rows one by one is found at its row. -/
theorem filter_filterMap_range' {β : Type} (f : Nat → Option β) (first count row : Nat) :
    ((List.range' first count).filterMap fun r => (f r).map fun b => (r, b)).filter
        (fun e => e.1 = row) =
      if first ≤ row ∧ row < first + count then ((f row).map fun b => (row, b)).toList
      else [] := by
  induction count generalizing first with
  | zero =>
      rw [if_neg (by omega)]
      rfl
  | succ n ih =>
      have hrest := ih (first + 1)
      rw [List.range'_succ]
      by_cases hrow : first = row
      · subst hrow
        rw [if_neg (by omega)] at hrest
        rw [if_pos (by omega)]
        cases hfirst : f first <;> simp [hfirst, hrest]
      · have hsame : (first + 1 ≤ row ∧ row < first + 1 + n) ↔
            (first ≤ row ∧ row < first + (n + 1)) := by omega
        rw [if_congr hsame rfl rfl] at hrest
        rw [← hrest]
        cases hfirst : f first <;> simp [hfirst, hrow]

theorem tokensOf_of_scope (lines : Array (List Char)) {scope : Nat}
    (h : scopeId? c.name = some scope) :
    tokensOf lines c =
      (List.range' c.start.row (c.stop.row + 1 - c.start.row)).filterMap fun row =>
        (tokenBetween? (lines[row]?.getD []) row c scope).map fun t => (row, t) := by
  unfold tokensOf tokenBetween?
  rw [h]
  dsimp only
  congr 1
  funext row
  split <;> rfl

/-- The tokens of a capture, by their rows. -/
theorem filter_tokensOf (lines : Array (List Char)) (c : Capture) (row : Nat) :
    ((tokensOf lines c).filter (·.1 = row)).map Prod.snd =
      (tokenOn? (lines[row]?.getD []) row c).toList := by
  unfold tokenOn?
  cases hscope : scopeId? c.name with
  | none => simp [tokensOf, hscope]
  | some scope =>
      have hrange : (c.start.row ≤ row ∧ row < c.start.row + (c.stop.row + 1 - c.start.row)) ↔
          (c.start.row ≤ row ∧ row ≤ c.stop.row) := by omega
      rw [tokensOf_of_scope lines hscope, filter_filterMap_range', if_congr hrange rfl rfl,
        Option.bind_some]
      split
      · cases tokenBetween? (lines[row]?.getD []) row c scope <;> rfl
      · rfl

/-! ## The characters of a capture -/

/-- A capture has a character of a row: it starts in front of the end of the character,
and does not stop in front of it. -/
def Capture.Has (c : Capture) (line : List Char) (row column : Nat) : Prop :=
  c.start.Before (placeOf line row (column + 1)) ∧
    ¬ c.stop.Before (placeOf line row (column + 1))

instance (c : Capture) (line : List Char) (row column : Nat) :
    Decidable (c.Has line row column) :=
  inferInstanceAs (Decidable (_ ∧ ¬ _))

theorem Token.covers_iff {t : Token} :
    t.covers column = true ↔ t.start ≤ column ∧ column < t.stop := by
  simp [Token.covers]

theorem columnsIn_le (c : Capture) (row : Nat) (line : List Char) :
    (columnsIn c row line).2 ≤ line.length := by
  unfold columnsIn
  dsimp only
  split
  · exact charColumn_le line _
  · exact Nat.le_refl _

/-- A capture that has begun in a row has begun in front of the end of a character. -/
theorem columnsIn_fst_le_iff (h : column < line.length) :
    c.start.row ≤ row ∧ (columnsIn c row line).1 ≤ column ↔
      c.start.Before (placeOf line row (column + 1)) := by
  have hbyte := @lt_charColumn_iff line column c.start.byte h
  unfold columnsIn Position.Before placeOf
  dsimp only
  split <;> omega

theorem lt_columnsIn_snd_iff (h : column < line.length) :
    row ≤ c.stop.row ∧ column < (columnsIn c row line).2 ↔
      ¬ c.stop.Before (placeOf line row (column + 1)) := by
  have hbyte := @lt_charColumn_iff line column c.stop.byte h
  unfold columnsIn Position.Before placeOf
  dsimp only
  split <;> omega

/-- **The token of a capture** covers the characters that the capture has. -/
theorem exists_covers_iff (h : column < line.length) :
    (∃ t, tokenOn? line row c = some t ∧ t.covers column = true) ↔
      (scopeId? c.name).isSome = true ∧ c.Has line row column := by
  unfold Capture.Has
  rw [← columnsIn_fst_le_iff h, ← lt_columnsIn_snd_iff h]
  constructor
  · rintro ⟨t, htoken, hcovers⟩
    obtain ⟨⟨hstart, hstop⟩, hscope, hcolumns, -⟩ := tokenOn?_eq_some_iff.mp htoken
    obtain ⟨hle, hlt⟩ := Token.covers_iff.mp hcovers
    rw [hscope, hcolumns]
    exact ⟨rfl, ⟨hstart, hle⟩, hstop, hlt⟩
  · rintro ⟨hscope, ⟨hstart, hle⟩, hstop, hlt⟩
    obtain ⟨scope, hscope⟩ := Option.isSome_iff_exists.mp hscope
    refine ⟨⟨(columnsIn c row line).1, (columnsIn c row line).2, scope⟩, ?_, ?_⟩
    · rw [tokenOn?_eq_some_iff]
      exact ⟨⟨hstart, hstop⟩, hscope, rfl, Nat.lt_of_le_of_lt hle hlt⟩
    · exact Token.covers_iff.mpr ⟨hle, hlt⟩

/-! ## The tokens of a row -/

namespace Highlights

theorem comesBefore_iff {a b : Token} :
    comesBefore a b = true ↔ a.start < b.start ∨ a.start = b.start ∧ a.stop ≤ b.stop := by
  simp [comesBefore]

theorem comesBefore_trans (a b c : Token) (hab : comesBefore a b = true)
    (hbc : comesBefore b c = true) : comesBefore a c = true := by
  rw [comesBefore_iff] at *
  omega

theorem comesBefore_total (a b : Token) : (comesBefore a b || comesBefore b a) = true := by
  rw [Bool.or_eq_true, comesBefore_iff, comesBefore_iff]
  omega

/-- The token has a range. -/
def hasRange (start stop : Nat) (t : Token) : Bool :=
  decide (t.start = start) && decide (t.stop = stop)

theorem hasRange_iff {start stop : Nat} {t : Token} :
    hasRange start stop t = true ↔ t.start = start ∧ t.stop = stop := by
  simp [hasRange]

/-- **Sorting is stable.**  Tokens with one range keep their order. -/
theorem filter_mergeSort_comesBefore (tokens : List Token) (start stop : Nat) :
    (tokens.mergeSort comesBefore).filter (hasRange start stop) =
      tokens.filter (hasRange start stop) := by
  have hpairwise : (tokens.filter (hasRange start stop)).Pairwise
      fun a b => comesBefore a b = true := by
    rw [List.pairwise_iff_forall_sublist]
    intro a b hab
    have ha : a ∈ tokens.filter (hasRange start stop) := hab.subset (by simp)
    have hb : b ∈ tokens.filter (hasRange start stop) := hab.subset (by simp)
    rw [List.mem_filter, hasRange_iff] at ha hb
    rw [comesBefore_iff]
    omega
  have hsublist := (List.sublist_mergeSort comesBefore_trans comesBefore_total hpairwise
    List.filter_sublist).filter (hasRange start stop)
  rw [List.filter_filter] at hsublist
  simp only [Bool.and_self] at hsublist
  have hperm := (List.mergeSort_perm tokens comesBefore).filter (hasRange start stop)
  exact (hsublist.eq_of_length hperm.length_eq.symm).symm

/-- **The tokens of a row** are those of the captures, in order. -/
theorem onRow_ofCaptures (code : List Char) (captures : List Capture) (row : Nat) :
    (ofCaptures code captures).onRow row =
      (captures.flatMap fun c =>
        (tokenOn? ((Text.splitAt '\n' code)[row]?.getD []) row c).toList).mergeSort
          comesBefore := by
  rw [onRow, ofCaptures, List.filter_flatMap, List.map_flatMap]
  simp only [filter_tokensOf, List.getElem?_toArray]

theorem onRow_singleton (code : List Char) (c : Capture) (row : Nat) :
    (ofCaptures code [c]).onRow row =
      (tokenOn? ((Text.splitAt '\n' code)[row]?.getD []) row c).toList := by
  rw [onRow_ofCaptures, List.flatMap_singleton]
  cases tokenOn? ((Text.splitAt '\n' code)[row]?.getD []) row c <;> simp

theorem mem_onRow_ofCaptures {code : List Char} {captures : List Capture} {t : Token} :
    t ∈ (ofCaptures code captures).onRow row ↔
      ∃ c ∈ captures, tokenOn? ((Text.splitAt '\n' code)[row]?.getD []) row c = some t := by
  rw [onRow_ofCaptures, List.mem_mergeSort, List.mem_flatMap]
  simp only [Option.mem_toList]

/-- A token lies inside its row, which is one of the source. -/
theorem bounds_of_mem_onRow {code : List Char} {captures : List Capture} {t : Token}
    (h : t ∈ (ofCaptures code captures).onRow row) :
    ∃ line, (Text.splitAt '\n' code)[row]? = some line ∧ t.start < t.stop ∧
      t.stop ≤ line.length := by
  obtain ⟨c, -, htoken⟩ := mem_onRow_ofCaptures.mp h
  obtain ⟨-, -, hcolumns, hlt⟩ := tokenOn?_eq_some_iff.mp htoken
  have hle := columnsIn_le c row ((Text.splitAt '\n' code)[row]?.getD [])
  rw [hcolumns] at hle
  cases hline : (Text.splitAt '\n' code)[row]? with
  | none =>
      -- a row behind the source has no columns
      rw [hline, Option.getD_none, List.length_nil] at hle
      omega
  | some line =>
      rw [hline, Option.getD_some] at hle
      exact ⟨line, rfl, hlt, hle⟩

/-- A capture with a scope covers each character that it has once. -/
theorem countP_covers_singleton {code : List Char}
    (hline : (Text.splitAt '\n' code)[row]? = some line) (hcolumn : column < line.length)
    (hscope : (scopeId? c.name).isSome = true) :
    ((ofCaptures code [c]).onRow row).countP (·.covers column) =
      if c.Has line row column then 1 else 0 := by
  have hcovers := @exists_covers_iff line row column c hcolumn
  rw [onRow_singleton, hline, Option.getD_some]
  cases htoken : tokenOn? line row c with
  | none =>
      rw [htoken] at hcovers
      have hnot : ¬ c.Has line row column := by
        intro hhas
        obtain ⟨t, ht, -⟩ := hcovers.mpr ⟨hscope, hhas⟩
        cases ht
      rw [if_neg hnot]
      rfl
  | some t =>
      have hsame : t.covers column = true ↔ c.Has line row column := by
        rw [htoken] at hcovers
        simpa [hscope] using hcovers
      rw [Option.toList_some, List.countP_singleton, if_congr hsame rfl rfl]

/-- **The tokens of a source.**  Whatever captures are given, with any places: a token is
not empty and lies inside its row, which is one of the source; the tokens of a row are in
the order of their starts and then of their stops, and those with one range in the order
of the captures that they come from.  A capture with a scope whose two places are inside
no character covers each character that starts between them once, and no other. -/
theorem ofCaptures_exact (code : List Char) (captures : List Capture) :
    (∀ row, ∀ t ∈ (ofCaptures code captures).onRow row,
      ∃ line, (Text.splitAt '\n' code)[row]? = some line ∧ t.start < t.stop ∧
        t.stop ≤ line.length) ∧
    (∀ row, ((ofCaptures code captures).onRow row).Pairwise fun a b =>
      a.start < b.start ∨ a.start = b.start ∧ a.stop ≤ b.stop) ∧
    (∀ row start stop,
      ((ofCaptures code captures).onRow row).filter (hasRange start stop) =
        captures.flatMap fun c =>
          ((ofCaptures code [c]).onRow row).filter (hasRange start stop)) ∧
    ∀ c : Capture, (scopeId? c.name).isSome = true → IsBoundary code c.start →
      IsBoundary code c.stop →
      ∀ row line column, (Text.splitAt '\n' code)[row]? = some line → column < line.length →
        ((ofCaptures code [c]).onRow row).countP (·.covers column) =
          if ¬ (placeOf line row column).Before c.start ∧
            (placeOf line row column).Before c.stop then 1 else 0 := by
  refine ⟨fun row t => bounds_of_mem_onRow, ?_, ?_, ?_⟩
  · intro row
    have hsorted := List.pairwise_mergeSort comesBefore_trans comesBefore_total
      (captures.flatMap fun c =>
        (tokenOn? ((Text.splitAt '\n' code)[row]?.getD []) row c).toList)
    rw [onRow_ofCaptures]
    exact hsorted.imp comesBefore_iff.mp
  · intro row start stop
    simp only [onRow_singleton]
    rw [onRow_ofCaptures, filter_mergeSort_comesBefore, List.filter_flatMap]
  · intro c hscope hstart hstop row line column hline hcolumn
    have hhas : c.Has line row column ↔
        ¬ (placeOf line row column).Before c.start ∧
          (placeOf line row column).Before c.stop := by
      rw [Capture.Has, hstart.before_succ_iff hline hcolumn, hstop.before_succ_iff hline hcolumn,
        not_not]
    rw [countP_covers_singleton hline hcolumn hscope, if_congr hhas rfl rfl]

/-- A string over three rows, behind a character of two bytes. -/
theorem ofCaptures_exact_string :
    let code := "é \"a\r\n\nb\" c".toList
    let c : Capture := ⟨"string", ⟨0, 3⟩, ⟨2, 2⟩⟩
    ((scopeId? c.name).isSome = true ∧ IsBoundary code c.start ∧ IsBoundary code c.stop) ∧
      ((ofCaptures code [c]).onRow 0).countP (·.covers 3) = 1 := by
  intro code c
  have hscope : (scopeId? c.name).isSome = true := by
    unfold scopeId? inScope?
    decide
  have hstart : IsBoundary code c.start := ⟨['é', ' ', '"', 'a', '\r'], 2, by decide⟩
  have hstop : IsBoundary code c.stop := ⟨['b', '"', ' ', 'c'], 2, by decide⟩
  exact ⟨⟨hscope, hstart, hstop⟩, (ofCaptures_exact code [c]).2.2.2 c hscope hstart hstop 0
    ['é', ' ', '"', 'a', '\r'] 3 rfl (by decide)⟩

end Highlights

end CodeFence.Syntax
