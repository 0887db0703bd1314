import CodeFence.Proofs.SeenTokens
import CodeFence.Proofs.TokenPlaces

/-!
# Looking for the token of a column

A column is looked for in the tokens of a line from the first one on, and the search
stops at a token that begins behind the column.  In tokens that are in the order of
their starts nothing is missed by this, whether they overlap or not: no later token
begins further left.  The tokens of a row are always in that order.  The spans of the
line show the narrowest token instead of the first one, so both say the same at least
where no more than one token covers the column.

* `InOrder`, `Apart` — tokens in the order of their starts, and tokens of which no two
  share a column;
* `scopeAt?_eq_find?` — the search that stops early misses nothing;
* `seenScope_iff_of_covered_once` — what is seen where tokens do not overlap;
* `inOrder_onRow` — the tokens of a row are in order;
* `scopeAt?_exact` — the scope of a column, by the search and by the spans.
-/

namespace CodeFence.Syntax

variable {tokens : List Token} {t : Token} {column : Nat}

/-- Tokens in the order of their starts. -/
def InOrder (tokens : List Token) : Prop :=
  tokens.Pairwise fun t u => t.start ≤ u.start

instance : DecidablePred InOrder := fun tokens =>
  inferInstanceAs (Decidable (tokens.Pairwise fun t u => t.start ≤ u.start))

/-- Tokens of which no two share a column. -/
def Apart (tokens : List Token) : Prop :=
  tokens.Pairwise fun t u => ∀ column, t.covers column = true → u.covers column = false

/-- Behind a token that begins further right, no token covers the column. -/
theorem not_covers_of_lt_start (h : InOrder (t :: tokens)) (hlt : column < t.start) :
    ∀ u ∈ tokens, u.covers column = false := by
  intro u hu
  have hstart : t.start ≤ u.start := List.rel_of_pairwise_cons h hu
  rw [← Bool.not_eq_true, Token.covers_iff]
  omega

/-- **Stopping early misses nothing.** -/
theorem scopeAt?_eq_find? (h : InOrder tokens) (column : Nat) :
    scopeAt? tokens column = (tokens.find? (·.covers column)).map Token.scope := by
  induction tokens with
  | nil => rfl
  | cons t rest ih =>
      rw [scopeAt?]
      by_cases hcovers : t.covers column = true
      · have hfirst : (t :: rest).find? (·.covers column) = some t :=
          List.find?_cons_of_pos hcovers
        rw [if_pos hcovers, hfirst, Option.map_some]
      · have hlater : (t :: rest).find? (·.covers column) = rest.find? (·.covers column) :=
          List.find?_cons_of_neg hcovers
        rw [if_neg hcovers, hlater]
        by_cases hlt : column < t.start
        · have hnone : rest.find? (·.covers column) = none :=
            List.find?_eq_none.mpr fun u hu =>
              Bool.eq_false_iff.mp (not_covers_of_lt_start h hlt u hu)
          rw [if_pos hlt, hnone, Option.map_none]
        · rw [if_neg hlt]
          exact ih h.of_cons

/-- **What is seen where tokens do not overlap** is the one token that covers the
column, which is the first such token too. -/
theorem seenScope_iff_of_covered_once
    (h : tokens.Pairwise fun t u => t.covers column = true → u.covers column = false)
    {scope : Option Nat} :
    SeenScope tokens column scope ↔
      (tokens.find? (·.covers column)).map Token.scope = scope := by
  have hseen : ∀ t, IsSeen tokens column t → tokens.find? (·.covers column) = some t := by
    rintro t ⟨before, after, rfl, hcovers, -, -⟩
    refine List.find?_eq_some_iff_append.mpr ⟨hcovers, before, after, rfl, ?_⟩
    intro u hu
    have hu' := (List.pairwise_append.mp h).2.2 u hu t List.mem_cons_self
    rw [Bool.not_eq_true', Bool.eq_false_iff]
    intro hcovered
    rw [hu' hcovered] at hcovers
    cases hcovers
  have hshown : ∀ shown, SeenScope tokens column shown →
      (tokens.find? (·.covers column)).map Token.scope = shown := by
    rintro (- | shown) hshown
    · have hnone : tokens.find? (·.covers column) = none :=
        List.find?_eq_none.mpr fun u hu => Bool.eq_false_iff.mp (hshown u hu)
      rw [hnone, Option.map_none]
    · obtain ⟨t, ht, rfl⟩ := hshown
      rw [hseen t ht, Option.map_some]
  constructor
  · exact hshown scope
  · rintro rfl
    obtain ⟨shown, -, hpainted⟩ :=
      exists_seenScope_paint tokens (Nat.lt_succ_self column)
    rwa [hshown shown hpainted]

/-- **The tokens of a row are in order**, whatever captures they come from. -/
theorem inOrder_onRow (code : List Char) (captures : List Capture) (row : Nat) :
    InOrder ((Highlights.ofCaptures code captures).onRow row) := by
  have hsorted := List.pairwise_mergeSort Highlights.comesBefore_trans
    Highlights.comesBefore_total
    (captures.flatMap fun c =>
      (tokenOn? ((Text.splitAt '\n' code)[row]?.getD []) row c).toList)
  rw [Highlights.onRow_ofCaptures]
  refine hsorted.imp fun {a b} hab => ?_
  rw [Highlights.comesBefore_iff] at hab
  omega

/-- **The scope of a column.**  In tokens that are in the order of their starts, the
search gives the scope of the first token of the whole list that covers the column,
and none if no token does.  If no two of the tokens share a column, this is in a line
of any length the scope of the one span that has the column. -/
theorem scopeAt?_exact (h : InOrder tokens) :
    (∀ column, scopeAt? tokens column =
      (tokens.find? (·.covers column)).map Token.scope) ∧
    (Apart tokens → ∀ length, ∀ column < length,
      ∃ s ∈ segments tokens length, s.Has column ∧ s.scope = scopeAt? tokens column ∧
        ∀ s' ∈ segments tokens length, s'.Has column → s' = s) := by
  refine ⟨scopeAt?_eq_find? h, fun hapart length column hlt => ?_⟩
  have honce : tokens.Pairwise fun t u => t.covers column = true → u.covers column = false :=
    hapart.imp fun hdisjoint => hdisjoint column
  obtain ⟨s, hs, hhas, hunique⟩ :=
    (segments_tile tokens length).exists_has (Nat.zero_le column) hlt
  have hpainted : (paint tokens length)[column]? = some s.scope :=
    runs_scope s hs column (by rwa [Nat.zero_add])
  obtain ⟨scope, hscope, hseen⟩ := exists_seenScope_paint tokens hlt
  have hsame : s.scope = scope := Option.some.inj (hpainted.symm.trans hscope)
  refine ⟨s, hs, hhas, ?_, hunique⟩
  rw [hsame, scopeAt?_eq_find? h]
  exact ((seenScope_iff_of_covered_once honce).mp hseen).symm

/-- Three tokens of which the second has no columns and begins where the third does. -/
theorem scopeAt?_exact_empty_token :
    let tokens : List Token := [⟨0, 2, 3⟩, ⟨2, 2, 5⟩, ⟨2, 4, 7⟩]
    (InOrder tokens ∧ Apart tokens ∧ 2 < 6) ∧
      scopeAt? tokens 2 = some 7 ∧ ∃ s ∈ segments tokens 6, s.Has 2 ∧ s.scope = some 7 := by
  intro tokens
  have horder : InOrder tokens := by decide
  have hapart : Apart tokens := by
    grind [Apart, Token.covers]
  obtain ⟨hsearch, hspans⟩ := scopeAt?_exact horder
  have hscope : scopeAt? tokens 2 = some 7 := hsearch 2
  obtain ⟨s, hs, hhas, hsame, -⟩ := hspans hapart 6 2 (by decide)
  exact ⟨⟨horder, hapart, by decide⟩, hscope, s, hs, hhas, hsame.trans hscope⟩

end CodeFence.Syntax
