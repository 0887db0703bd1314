import CodeFence.Syntax.Spans

/-!
# Spans cover a line

Whatever tokens a line has, its spans follow each other without a gap and
without an overlap from the first column to the last.  So the pieces that they
cut out of the line make up the line again.

* `Tiles` — spans in a row, each one starting where the one before ends;
* `segments_tile` — the spans of a line tile it, for any tokens at all;
* `flatMap_piece_segments` — the pieces in a row are the line.
-/

namespace CodeFence.Syntax

/-- The spans follow each other from column `a` to column `b`; none is
empty. -/
def Tiles (a : Nat) : List Segment → Nat → Prop
  | [], b => a = b
  | s :: rest, b => s.start = a ∧ a < s.stop ∧ Tiles s.stop rest b

theorem Tiles.le {a b : Nat} {spans : List Segment} (h : Tiles a spans b) : a ≤ b := by
  induction spans generalizing a with
  | nil => exact Nat.le_of_eq h
  | cons s rest ih =>
      obtain ⟨-, hlt, hrest⟩ := h
      have hle := ih hrest
      omega

/-- Joining neighbouring columns of one scope covers each column once. -/
theorem runs_tile (start : Nat) (scopes : List (Option Nat)) :
    Tiles start (runs start scopes) (start + scopes.length) := by
  induction scopes generalizing start with
  | nil => rfl
  | cons scope rest ih =>
      have hrest := ih (start + 1)
      have hend : start + (scope :: rest).length = start + 1 + rest.length := by
        rw [List.length_cons]
        omega
      rw [hend]
      unfold runs
      generalize runs (start + 1) rest = spans at hrest
      cases spans with
      | nil => exact ⟨rfl, Nat.lt_succ_self start, hrest⟩
      | cons s spans =>
          obtain ⟨hstart, hlt, hspans⟩ := hrest
          dsimp only
          split
          · exact ⟨rfl, Nat.lt_of_succ_lt hlt, hspans⟩
          · exact ⟨rfl, Nat.lt_succ_self start, hstart, hlt, hspans⟩

/-- Painting leaves a line as long as it is. -/
theorem length_paint (tokens : List Token) (length : Nat) :
    (paint tokens length).length = length := by
  unfold paint
  induction byWidth tokens with
  | nil => exact List.length_replicate
  | cons t rest ih => rw [List.foldr_cons, Token.paintOver, List.length_mapIdx, ih]

/-- **The spans of a line tile it.**  Its tokens may overlap, lie inside each
other or reach past its end. -/
theorem segments_tile (tokens : List Token) (length : Nat) :
    Tiles 0 (segments tokens length) length := by
  have hruns := runs_tile 0 (paint tokens length)
  rw [length_paint, Nat.zero_add] at hruns
  exact hruns

/-- The piece of a line that a span cuts out. -/
def Segment.piece (s : Segment) (line : List Char) : List Char :=
  (line.drop s.start).take (s.stop - s.start)

/-- Pieces that follow each other are one piece. -/
theorem Tiles.flatMap_piece {a b : Nat} {spans : List Segment} (h : Tiles a spans b)
    (line : List Char) :
    spans.flatMap (·.piece line) = (line.drop a).take (b - a) := by
  induction spans generalizing a with
  | nil =>
      obtain rfl : a = b := h
      rw [Nat.sub_self]
      rfl
  | cons s rest ih =>
      obtain ⟨rfl, hlt, hrest⟩ := h
      have hle := hrest.le
      have hlength : b - s.start = (s.stop - s.start) + (b - s.stop) := by omega
      have hdrop : s.start + (s.stop - s.start) = s.stop := by omega
      rw [List.flatMap_cons, ih hrest, Segment.piece, hlength, List.take_add, List.drop_drop,
        hdrop]

/-- **The pieces of a line.**  No character is lost, doubled or moved. -/
theorem flatMap_piece_segments (tokens : List Token) (line : List Char) :
    (segments tokens line.length).flatMap (·.piece line) = line := by
  rw [(segments_tile tokens line.length).flatMap_piece line]
  simp

end CodeFence.Syntax
