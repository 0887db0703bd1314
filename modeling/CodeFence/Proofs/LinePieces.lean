import CodeFence.Proofs.DottedNames
import CodeFence.Proofs.SeenTokens
import CodeFence.Proofs.SourceText

/-!
# The pieces of a colored line

A line is cut into spans, and each span is appended to what stands there already: text
to the text in front of it, and a color as an element of its own.  So neighbouring
pieces without a color become one text, however many spans they came from, and a line
in which no token has a color is the line of plain text.

* `seenScope_of_mem_segments` — a span has the scope of a token;
* `appendText_cases` — text goes into the text at the end, or behind it;
* `Neat` — no piece is empty, and no two texts are neighbours;
* `neat_renderLine` — what a line is made of;
* `renderLine_of_uncolored` — a line without a color;
* `renderedLines_exact` — the lines of a block.
-/

namespace CodeFence.Syntax

variable {tokens : List Token} {length column : Nat} {s : Segment}

/-- The spans of a tiling lie inside it, and none is empty. -/
theorem Tiles.bounds {a b : Nat} {spans : List Segment} (h : Tiles a spans b) :
    ∀ s ∈ spans, a ≤ s.start ∧ s.start < s.stop ∧ s.stop ≤ b := by
  induction spans generalizing a with
  | nil => simp
  | cons s rest ih =>
      obtain ⟨hstart, hlt, hrest⟩ := h
      have hle := hrest.le
      intro t ht
      rcases List.mem_cons.mp ht with rfl | ht
      · omega
      · have hbounds := ih hrest t ht
        omega

/-- **The scope of a span** is that of the token seen in any of its columns. -/
theorem seenScope_of_mem_segments (hs : s ∈ segments tokens length) (hhas : s.Has column) :
    SeenScope tokens column s.scope := by
  have hscope : (paint tokens length)[column]? = some s.scope :=
    runs_scope s hs column (by rwa [Nat.zero_add])
  have hlt : column < length := by
    have hpainted := (List.getElem?_eq_some_iff.mp hscope).1
    rwa [length_paint] at hpainted
  obtain ⟨scope, hpainted, hseen⟩ := exists_seenScope_paint tokens hlt
  rw [Option.some.inj (hscope.symm.trans hpainted)]
  exact hseen

theorem exists_token_of_mem_segments {scope : Nat} (hs : s ∈ segments tokens length)
    (hscope : s.scope = some scope) : ∃ t ∈ tokens, t.scope = scope := by
  obtain ⟨-, hlt, -⟩ := (segments_tile tokens length).bounds s hs
  have hseen := seenScope_of_mem_segments hs ⟨Nat.le_refl s.start, hlt⟩
  rw [hscope] at hseen
  obtain ⟨t, ⟨before, after, rfl, -⟩, hsame⟩ := hseen
  exact ⟨t, by simp, hsame⟩

theorem segments_zero (tokens : List Token) : segments tokens 0 = [] := by
  have hpaint := List.eq_nil_of_length_eq_zero (length_paint tokens 0)
  rw [segments, hpaint, runs]

/-- A span of a line cuts out some of it. -/
theorem piece_ne_nil {line : List Char} (hs : s ∈ segments tokens line.length) :
    s.piece line ≠ [] := by
  have hbounds := (segments_tile tokens line.length).bounds s hs
  intro hnil
  have hlength := congrArg List.length hnil
  rw [Segment.piece, List.length_take, List.length_drop, List.length_nil] at hlength
  omega

end CodeFence.Syntax

namespace CodeFence

open Markup

/-- The node is text. -/
def Markup.Node.isText : Node → Bool
  | .text _ => true
  | .element _ _ _ => false

namespace Bundled

variable {theme : Theme} {line : List Char} {nodes : List Node} {piece : String}

/-- A piece of a line: text, or a colored element around text.  In both cases there is
some text. -/
inductive IsPiece : Node → Prop
  | text {value : String} (h : value ≠ "") : IsPiece (.text value)
  | colored (color : Color) {value : String} (h : value ≠ "") :
      IsPiece (.element "span" [("style", "color: " ++ color.toCss)] [.text value])

/-- Nodes that are pieces, of which no two neighbours are both text. -/
structure Neat (nodes : List Node) : Prop where
  pieces : ∀ n ∈ nodes, IsPiece n
  apart : nodes.IsChain fun n m => ¬ (n.isText = true ∧ m.isText = true)

/-! ## Appending a piece -/

/-- **Text is appended** to the text at the end, or behind a last node that is none. -/
theorem appendText_cases (piece : String) (nodes : List Node) :
    (∃ front value, nodes = front ++ [.text value] ∧
      appendText piece nodes = front ++ [.text (value ++ piece)]) ∨
    (∀ n ∈ nodes.getLast?, n.isText = false) ∧
      appendText piece nodes = nodes ++ [.text piece] := by
  fun_induction appendText piece nodes with
  | case1 => simp
  | case2 value => exact Or.inl ⟨[], value, rfl, rfl⟩
  | case3 n rest hlast ih =>
      rcases ih with ⟨front, value, rfl, hrest⟩ | ⟨hnone, hrest⟩
      · exact Or.inl ⟨n :: front, value, rfl, by rw [hrest]; rfl⟩
      · refine Or.inr ⟨?_, by rw [hrest]; rfl⟩
        cases rest with
        | nil =>
            intro m hm
            obtain rfl : n = m := by simpa using hm
            cases n with
            | text value => exact absurd rfl (hlast value rfl)
            | element tag attrs children => rfl
        | cons m more =>
            rw [List.getLast?_cons_cons]
            exact hnone

theorem neat_nil : Neat [] where
  pieces := by simp
  apart := List.isChain_nil

theorem Neat.of_append {front back : List Node} (h : Neat (front ++ back)) : Neat front where
  pieces := fun n hn => h.pieces n (List.mem_append_left back hn)
  apart := (List.isChain_append.mp h.apart).1

/-- One more piece behind nodes of which it does not join the last. -/
theorem Neat.append_piece {n : Node} (h : Neat nodes) (hn : IsPiece n)
    (hapart : n.isText = true → ∀ m ∈ nodes.getLast?, m.isText = false) :
    Neat (nodes ++ [n]) where
  pieces := by
    intro m hm
    rcases List.mem_append.mp hm with hm | hm
    · exact h.pieces m hm
    · obtain rfl := List.mem_singleton.mp hm
      exact hn
  apart := by
    rw [List.isChain_append]
    refine ⟨h.apart, List.isChain_singleton n, ?_⟩
    intro m hm k hk htext
    obtain rfl : n = k := by simpa using hk
    rw [hapart htext.2 m hm] at htext
    exact Bool.false_ne_true htext.1

/-- **Appending a piece** keeps a line neat. -/
theorem Neat.append (h : Neat nodes) (hpiece : piece ≠ "") (color : Option Color) :
    Neat (appendPiece nodes piece color) := by
  cases color with
  | some color => exact h.append_piece (.colored color hpiece) (fun htext => nomatch htext)
  | none =>
      rcases appendText_cases piece nodes with ⟨front, value, rfl, happend⟩ | ⟨hlast, happend⟩
      · -- the text at the end is longer now, and stands where it stood
        have hfront := h.of_append
        have hlonger : value ++ piece ≠ "" := by
          intro hempty
          obtain ⟨-, hnone⟩ : value = "" ∧ piece = "" := by simpa using hempty
          exact hpiece hnone
        have hbefore : ∀ m ∈ front.getLast?, m.isText = false := by
          intro m hm
          have hneighbours := (List.isChain_append.mp h.apart).2.2 m hm (.text value) rfl
          simpa [Node.isText] using hneighbours
        rw [appendPiece, happend]
        exact hfront.append_piece (.text hlonger) fun _ => hbefore
      · rw [appendPiece, happend]
        exact h.append_piece (.text hpiece) fun _ => hlast

/-- Spans that cut something out of a line keep it neat. -/
theorem Neat.pieceNodes_of_spans {spans : List Syntax.Segment} (h : Neat nodes)
    (hspans : ∀ s ∈ spans, s.piece line ≠ []) : Neat (pieceNodes theme line nodes spans) := by
  induction spans generalizing nodes with
  | nil => exact h
  | cons s rest ih =>
      have hpiece : String.ofList (s.piece line) ≠ "" := by
        intro hempty
        exact hspans s List.mem_cons_self (by simpa using congrArg String.toList hempty)
      exact ih (h.append hpiece _) fun t ht => hspans t (List.mem_cons_of_mem s ht)

/-- **What a line is made of**, for any tokens. -/
theorem neat_renderLine (theme : Theme) (tokens : List Syntax.Token) (line : List Char) :
    Neat (renderLine theme tokens line).children := by
  rw [children_renderLine]
  exact neat_nil.pieceNodes_of_spans fun s hs => Syntax.piece_ne_nil hs

/-! ## A line without colors -/

/-- A span has no color if no token has one. -/
theorem segmentColor_of_uncolored {tokens : List Syntax.Token} {length : Nat}
    (h : ∀ t ∈ tokens, Syntax.scopeColor? theme t.scope = none) :
    ∀ s ∈ Syntax.segments tokens length, segmentColor theme s = none := by
  intro s hs
  unfold segmentColor
  cases hscope : s.scope with
  | none => rfl
  | some scope =>
      obtain ⟨t, ht, rfl⟩ := Syntax.exists_token_of_mem_segments hs hscope
      exact h t ht

/-- The first span is appended, and then the others. -/
theorem pieceNodes_cons (theme : Theme) (line : List Char) (nodes : List Node)
    (s : Syntax.Segment) (rest : List Syntax.Segment) :
    pieceNodes theme line nodes (s :: rest) =
      pieceNodes theme line
        (appendPiece nodes (String.ofList (s.piece line)) (segmentColor theme s)) rest := rfl

/-- Spans without a color are joined to the text in front of them. -/
theorem pieceNodes_text {spans : List Syntax.Segment}
    (h : ∀ s ∈ spans, segmentColor theme s = none) (value : String) :
    pieceNodes theme line [.text value] spans =
      [.text (value ++ String.ofList (spans.flatMap (·.piece line)))] := by
  induction spans generalizing value with
  | nil => simp [pieceNodes]
  | cons s rest ih =>
      have hrest := ih (fun t ht => h t (List.mem_cons_of_mem s ht))
        (value ++ String.ofList (s.piece line))
      have hnone := h s List.mem_cons_self
      rw [List.flatMap_cons, String.ofList_append, ← String.append_assoc, ← hrest,
        pieceNodes_cons, hnone]
      rfl

/-- Spans without a color are one text. -/
theorem pieceNodes_nil {spans : List Syntax.Segment}
    (h : ∀ s ∈ spans, segmentColor theme s = none) (hne : spans ≠ []) :
    pieceNodes theme line [] spans =
      [.text (String.ofList (spans.flatMap (·.piece line)))] := by
  obtain ⟨s, rest, rfl⟩ := List.exists_cons_of_ne_nil hne
  have hrest := @pieceNodes_text theme line rest
    (fun t ht => h t (List.mem_cons_of_mem s ht)) (String.ofList (s.piece line))
  have hnone := h s List.mem_cons_self
  rw [List.flatMap_cons, String.ofList_append, ← hrest, pieceNodes_cons, hnone]
  rfl

/-- **A line without colors** is the line of plain text, whatever tokens it has. -/
theorem renderLine_of_uncolored {tokens : List Syntax.Token}
    (h : ∀ t ∈ tokens, Syntax.scopeColor? theme t.scope = none) (line : List Char) :
    renderLine theme tokens line = Document.plainLine line := by
  have hrendered : renderLine theme tokens line =
      ⟨"span", [("class", lineClass)],
        pieceNodes theme line [] (Syntax.segments tokens line.length)⟩ := rfl
  have htext := Syntax.flatMap_piece_segments tokens line
  cases line with
  | nil =>
      have hnone : Syntax.segments tokens ([] : List Char).length = [] :=
        Syntax.segments_zero tokens
      rw [hrendered, hnone]
      rfl
  | cons c rest =>
      have hsome : Syntax.segments tokens (c :: rest).length ≠ [] := by
        intro hnone
        rw [hnone] at htext
        cases htext
      rw [hrendered, pieceNodes_nil (segmentColor_of_uncolored h) hsome, htext]
      rfl

/-- **The lines of a block.**  If no token has a color, whatever tokens there are, the
block has the same `code` element as the one of plain text, each line being the line of
plain text.  And for any tokens and colors a line is made of texts and of colored
elements around a text, none of them empty, and no two texts are neighbours. -/
theorem renderedLines_exact (theme : Theme) :
    (∀ (code : String) (highlights : Syntax.Highlights),
      (∀ row < (displayLines code.toList).length, ∀ t ∈ highlights.onRow row,
        Syntax.scopeColor? theme t.scope = none) →
      ∃ e, (renderDocument code highlights theme).code? = some e ∧
        (Document.plain code).code? = some e) ∧
    (∀ tokens line, (∀ t ∈ tokens, Syntax.scopeColor? theme t.scope = none) →
      renderLine theme tokens line = Document.plainLine line) ∧
    ∀ tokens line, Neat (renderLine theme tokens line).children := by
  refine ⟨?_, fun tokens line h => renderLine_of_uncolored h line, neat_renderLine theme⟩
  intro code highlights h
  have hlines : (displayLines code.toList).mapIdx
        (fun row line => renderLine theme (highlights.onRow row) line) =
      (displayLines code.toList).map Document.plainLine := by
    apply List.ext_getElem
    · simp
    · intro row hrow _
      rw [List.length_mapIdx] at hrow
      rw [List.getElem_mapIdx, List.getElem_map, renderLine_of_uncolored (h row hrow)]
  refine ⟨_, ?_, code?_ofLines rfl _⟩
  rw [renderDocument, code?_ofLines (by simp), hlines]

/-- A theme that names no scope. -/
def bareTheme : Theme :=
  { id := "bare", name := "Bare", kind := .dark, background := ⟨0, 0, 0, 255⟩,
    foreground := ⟨255, 255, 255, 255⟩, lineNumber := ⟨255, 255, 255, 128⟩,
    highlightedLine := ⟨255, 255, 255, 26⟩, titleBackground := ⟨0, 0, 0, 255⟩, scopes := [] }

/-- Tokens inside each other, past the end of a line and on an empty one. -/
theorem renderedLines_exact_bare :
    let code := "ab é\r\n\nc"
    let highlights : Syntax.Highlights :=
      { tokens := [(0, ⟨0, 4, 22⟩), (0, ⟨1, 9, 6⟩), (1, ⟨0, 1, 2⟩), (2, ⟨0, 1, 22⟩)] }
    (∀ row < (displayLines code.toList).length, ∀ t ∈ highlights.onRow row,
      Syntax.scopeColor? bareTheme t.scope = none) ∧
      ∃ e, (renderDocument code highlights bareTheme).code? = some e ∧
        (Document.plain code).code? = some e := by
  intro code highlights
  have hnone : ∀ row < (displayLines code.toList).length, ∀ t ∈ highlights.onRow row,
      Syntax.scopeColor? bareTheme t.scope = none := fun _ _ t _ => Syntax.scopeColor?_of_no_scopes rfl t.scope
  exact ⟨hnone, (renderedLines_exact bareTheme).1 code highlights hnone⟩

end Bundled

end CodeFence
