import Mathlib.Data.List.Chain
import CodeFence.Proofs.SpanTiling

/-!
# Which token is seen

The tokens of a line are painted one over the other, the widest first and of equally
wide ones the last first.  So where tokens overlap, the narrowest one is seen, and of
equally narrow ones the first.  Spans join neighbouring columns of one scope, so each
column lies in one span, whose scope is that of the token seen there, and no two
neighbouring spans look alike.

* `IsSeen`, `SeenScope` — the token that is seen at a column, and its scope;
* `byWidth_cons`, `isSeen_of_find?` — the order in which the tokens are painted;
* `exists_seenScope_paint` — a painted column shows the token that is seen there;
* `mem_runs_cons`, `runs_scope`, `isChain_runs` — how columns are joined;
* `segments_exact` — the spans of a line.
-/

namespace CodeFence.Syntax

variable {tokens : List Token} {t : Token} {column : Nat}

/-- The token is seen at a column: it covers the column, the ones in front of it
that do so too are wider, and the ones behind it are at least as wide. -/
def IsSeen (tokens : List Token) (column : Nat) (t : Token) : Prop :=
  ∃ before after, tokens = before ++ t :: after ∧ t.covers column = true ∧
    (∀ u ∈ before, u.covers column = true → t.width < u.width) ∧
    ∀ u ∈ after, u.covers column = true → t.width ≤ u.width

/-- What a column shows: the scope of the token that is seen there, or none if
no token covers it. -/
def SeenScope (tokens : List Token) (column : Nat) : Option Nat → Prop
  | none => ∀ t ∈ tokens, t.covers column = false
  | some scope => ∃ t, IsSeen tokens column t ∧ t.scope = scope

/-- A wider token in front hides nothing. -/
theorem IsSeen.cons (h : IsSeen tokens column t) {u : Token}
    (hu : u.covers column = true → t.width < u.width) : IsSeen (u :: tokens) column t := by
  obtain ⟨before, after, rfl, hcovers, hbefore, hafter⟩ := h
  refine ⟨u :: before, after, rfl, hcovers, ?_, hafter⟩
  intro v hv
  rcases List.mem_cons.mp hv with rfl | hv
  · exact hu
  · exact hbefore v hv

/-! ## Painting the tokens over each other -/

theorem mem_byWidth : t ∈ byWidth tokens ↔ t ∈ tokens :=
  List.mem_mergeSort

/-- **Where a token goes** when the tokens are ordered: behind all narrower ones and
in front of all others, which keep their places. -/
theorem byWidth_cons (t : Token) (rest : List Token) :
    ∃ front back, byWidth (t :: rest) = front ++ t :: back ∧ byWidth rest = front ++ back ∧
      (∀ u ∈ front, u.width < t.width) ∧ ∀ u ∈ back, t.width ≤ u.width := by
  have htrans : ∀ a b c : Token, decide (a.width ≤ b.width) = true →
      decide (b.width ≤ c.width) = true → decide (a.width ≤ c.width) = true := by
    simp only [decide_eq_true_eq]
    omega
  have htotal : ∀ a b : Token,
      (decide (a.width ≤ b.width) || decide (b.width ≤ a.width)) = true := by
    simp only [Bool.or_eq_true, decide_eq_true_eq]
    omega
  obtain ⟨front, back, hsort, hrest, hfront⟩ := List.mergeSort_cons htrans htotal t rest
  have hsorted := List.pairwise_mergeSort htrans htotal (t :: rest)
  rw [hsort] at hsorted
  refine ⟨front, back, hsort, hrest, ?_, ?_⟩
  · intro u hu
    simpa using hfront u hu
  · intro u hu
    have hbehind := (List.pairwise_append.mp hsorted).2.1
    exact of_decide_eq_true ((List.pairwise_cons.mp hbehind).1 u hu)

/-- **The first token by width** that covers a column is the one that is seen. -/
theorem isSeen_of_find? (h : (byWidth tokens).find? (·.covers column) = some t) :
    IsSeen tokens column t := by
  induction tokens with
  | nil => simp [byWidth] at h
  | cons u rest ih =>
      obtain ⟨front, back, hsort, hrest, hfront, hback⟩ := byWidth_cons u rest
      rw [hsort, List.find?_append] at h
      rw [hrest, List.find?_append] at ih
      cases hfound : front.find? (·.covers column) with
      | some b =>
          rw [hfound, Option.some_or] at h ih
          obtain rfl := Option.some.inj h
          exact (ih rfl).cons fun _ => hfront b (List.mem_of_find?_eq_some hfound)
      | none =>
          rw [hfound, Option.none_or] at h ih
          by_cases hcovers : u.covers column = true
          · have hhead : (u :: back).find? (·.covers column) = some u :=
              List.find?_cons_of_pos hcovers
            obtain rfl := Option.some.inj (hhead.symm.trans h)
            refine ⟨[], rest, rfl, hcovers, by simp, ?_⟩
            intro v hv hv'
            rw [← mem_byWidth, hrest, List.mem_append] at hv
            rcases hv with hv | hv
            · exact absurd hv' (List.find?_eq_none.mp hfound v hv)
            · exact hback v hv
          · have hbehind : (u :: back).find? (·.covers column) = back.find? (·.covers column) :=
              List.find?_cons_of_neg hcovers
            exact (ih (hbehind.symm.trans h)).cons fun hu => absurd hu hcovers

/-- What is painted last is seen. -/
theorem getElem?_foldr_paintOver (tokens : List Token) {length : Nat} (h : column < length) :
    (tokens.foldr Token.paintOver (List.replicate length none))[column]? =
      some ((tokens.find? (·.covers column)).map Token.scope) := by
  induction tokens with
  | nil => simp [h]
  | cons t rest ih =>
      rw [List.foldr_cons, Token.paintOver, List.getElem?_mapIdx, ih]
      by_cases hcovers : t.covers column = true <;> simp [hcovers]

/-- **A column shows the token that is seen there.** -/
theorem exists_seenScope_paint (tokens : List Token) {length : Nat} (h : column < length) :
    ∃ scope, (paint tokens length)[column]? = some scope ∧ SeenScope tokens column scope := by
  refine ⟨_, getElem?_foldr_paintOver (byWidth tokens) h, ?_⟩
  cases hfound : (byWidth tokens).find? (·.covers column) with
  | some t => exact ⟨t, isSeen_of_find? hfound, rfl⟩
  | none =>
      intro t ht
      simpa using List.find?_eq_none.mp hfound t (mem_byWidth.mpr ht)

/-! ## Spans -/

/-- The span has the column. -/
def Segment.Has (s : Segment) (column : Nat) : Prop :=
  s.start ≤ column ∧ column < s.stop

/-- No span of a tiling begins in front of it. -/
theorem Tiles.le_start {a b : Nat} {spans : List Segment} (h : Tiles a spans b) :
    ∀ s ∈ spans, a ≤ s.start := by
  induction spans generalizing a with
  | nil => simp
  | cons s rest ih =>
      obtain ⟨hstart, hlt, hrest⟩ := h
      intro s' hs'
      rcases List.mem_cons.mp hs' with rfl | hs'
      · exact Nat.le_of_eq hstart.symm
      · have hle := ih hrest s' hs'
        omega

/-- **Each column of a tiling** lies in exactly one of its spans. -/
theorem Tiles.exists_has {a b : Nat} {spans : List Segment} (h : Tiles a spans b)
    (hle : a ≤ column) (hlt : column < b) :
    ∃ s ∈ spans, s.Has column ∧ ∀ s' ∈ spans, s'.Has column → s' = s := by
  induction spans generalizing a with
  | nil =>
      have hab : a = b := h
      omega
  | cons s rest ih =>
      obtain ⟨hstart, hstop, hrest⟩ := h
      by_cases hfirst : column < s.stop
      · refine ⟨s, List.mem_cons_self, ⟨by omega, hfirst⟩, ?_⟩
        intro s' hs' hhas
        rcases List.mem_cons.mp hs' with rfl | hs'
        · rfl
        · have hbehind := hrest.le_start s' hs'
          have hbegun := hhas.1
          omega
      · obtain ⟨t, ht, hhas, hunique⟩ := ih hrest (Nat.not_lt.mp hfirst)
        refine ⟨t, List.mem_cons_of_mem s ht, hhas, ?_⟩
        intro s' hs' hhas'
        rcases List.mem_cons.mp hs' with rfl | hs'
        · exact absurd hhas'.2 hfirst
        · exact hunique s' hs' hhas'

/-- One more column in front is a span of its own, or joins the first one; the
other spans stay. -/
theorem mem_runs_cons {start : Nat} {scope : Option Nat} {rest : List (Option Nat)}
    {s : Segment} (hs : s ∈ runs start (scope :: rest)) :
    s = ⟨start, start + 1, scope⟩ ∨ s ∈ runs (start + 1) rest ∨
      ∃ t ∈ runs (start + 1) rest, t.start = start + 1 ∧ t.scope = scope ∧
        s = ⟨start, t.stop, t.scope⟩ := by
  have htile := runs_tile (start + 1) rest
  unfold runs at hs
  cases hruns : runs (start + 1) rest with
  | nil =>
      rw [hruns] at hs
      exact Or.inl (List.mem_singleton.mp hs)
  | cons t spans =>
      rw [hruns] at hs htile
      dsimp only at hs
      by_cases hsame : t.scope = scope
      · rw [if_pos hsame] at hs
        rcases List.mem_cons.mp hs with rfl | hs
        · exact Or.inr (Or.inr ⟨t, List.mem_cons_self, htile.1, hsame, rfl⟩)
        · exact Or.inr (Or.inl (List.mem_cons_of_mem t hs))
      · rw [if_neg hsame] at hs
        rcases List.mem_cons.mp hs with rfl | hs
        · exact Or.inl rfl
        · exact Or.inr (Or.inl hs)

/-- **Joined columns have one scope.** -/
theorem runs_scope {start : Nat} {scopes : List (Option Nat)} :
    ∀ s ∈ runs start scopes, ∀ i, s.Has (start + i) → scopes[i]? = some s.scope := by
  induction scopes generalizing start with
  | nil => simp [runs]
  | cons scope rest ih =>
      have hlater : ∀ t ∈ runs (start + 1) rest, ∀ k, t.Has (start + (k + 1)) →
          rest[k]? = some t.scope := by
        intro t ht k hhas
        apply ih t ht k
        rwa [Nat.add_assoc, Nat.add_comm 1 k]
      intro s hs i hhas
      rcases mem_runs_cons hs with rfl | hs | ⟨t, ht, hstart, rfl, rfl⟩
      · have hlt : start + i < start + 1 := hhas.2
        obtain rfl : i = 0 := by omega
        rfl
      · have hbehind := (runs_tile (start + 1) rest).le_start s hs
        have hbegun := hhas.1
        cases i with
        | zero => omega
        | succ k => exact hlater s hs k hhas
      · cases i with
        | zero => rfl
        | succ k => exact hlater t ht k ⟨by omega, hhas.2⟩

/-- Neighbouring spans have different scopes. -/
theorem isChain_runs (start : Nat) (scopes : List (Option Nat)) :
    (runs start scopes).IsChain fun s s' => s.scope ≠ s'.scope := by
  induction scopes generalizing start with
  | nil => exact List.isChain_nil
  | cons scope rest ih =>
      have hrest := ih (start + 1)
      unfold runs
      cases hruns : runs (start + 1) rest with
      | nil => exact List.isChain_singleton _
      | cons s spans =>
          rw [hruns] at hrest
          dsimp only
          by_cases hsame : s.scope = scope
          · rw [if_pos hsame]
            cases spans with
            | nil => exact List.isChain_singleton _
            | cons s' spans =>
                rw [List.isChain_cons_cons] at hrest ⊢
                exact hrest
          · rw [if_neg hsame, List.isChain_cons_cons]
            exact ⟨Ne.symm hsame, hrest⟩

/-- **The spans of a line.**  For any tokens, they follow each other from the
first column to the last, and none of them is empty; two neighbours never have
the same scope; and every column lies in just one of them, which has the scope of
the narrowest token that covers the column, of the first one if several are
equally narrow, and no scope if there is no such token. -/
theorem segments_exact (tokens : List Token) (length : Nat) :
    let spans := segments tokens length
    Tiles 0 spans length ∧ (spans = [] ↔ length = 0) ∧
      spans.IsChain (fun s s' => s.scope ≠ s'.scope) ∧
      ∀ column < length, ∃ s ∈ spans, s.Has column ∧ SeenScope tokens column s.scope ∧
        ∀ s' ∈ spans, s'.Has column → s' = s := by
  intro spans
  have htile : Tiles 0 spans length := segments_tile tokens length
  refine ⟨htile, ?_, isChain_runs 0 (paint tokens length), ?_⟩
  · constructor
    · intro hempty
      rw [hempty] at htile
      exact htile.symm
    · intro hzero
      subst hzero
      have hpaint := List.eq_nil_of_length_eq_zero (length_paint tokens 0)
      simp only [spans, segments, hpaint, runs]
  · intro column hlt
    obtain ⟨s, hs, hhas, hunique⟩ := htile.exists_has (Nat.zero_le column) hlt
    refine ⟨s, hs, hhas, ?_, hunique⟩
    have hscope : (paint tokens length)[column]? = some s.scope :=
      runs_scope s hs column (by rwa [Nat.zero_add])
    obtain ⟨scope, hpainted, hseen⟩ := exists_seenScope_paint tokens hlt
    rw [Option.some.inj (hscope.symm.trans hpainted)]
    exact hseen

end CodeFence.Syntax
