import CodeFence.Proofs.DocumentLines
import CodeFence.Proofs.DocumentOrigin
import CodeFence.Proofs.SpanTiling
import CodeFence.Proofs.TextCuts

/-!
# The source shows through

A rendered block has one line for each line of its source, and without the
number in front of it that line reads as the source does.  Colors cut a line
into pieces that make it up again, passes put elements beside the lines or in
front of them, and what comes out of the cache went into it in the same state.

* `displayLines_append_newline`, `displayLines_of_no_newline` — the lines of a source;
* `lineText_renderLine` — a colored line reads as the source, for any tokens;
* `Shows.applyAll` — no pass changes what a line reads;
* `Engine.Faithful` — the engines whose documents show their source;
* `lines_render_eq_displayLines` — through any history of the bundled engine,
  every block shows its source.
-/

namespace CodeFence

open Markup

theorem displayLines_append_newline (cs : List Char) :
    displayLines (cs ++ ['\n']) = (Text.splitAt '\n' cs).map Text.dropReturn := by
  have hcut : Text.before? ['\n'] (cs ++ ['\n']) = some cs := Text.before?_eq_some_iff.mpr rfl
  rw [displayLines, hcut, Option.getD_some]

theorem displayLines_of_no_newline {cs : List Char} (h : ¬ ['\n'] <:+ cs) :
    displayLines cs = (Text.splitAt '\n' cs).map Text.dropReturn := by
  have hcut : Text.before? ['\n'] cs = none := Text.before?_eq_none_iff.mpr h
  rw [displayLines, hcut, Option.getD_none]

/-- What a line reads, without the number in front of it. -/
def lineText (line : Element) : String :=
  textOfNodes (if Pass.isNumbered line then line.children.tail else line.children)

/-- The lines of a block read as the lines of a source. -/
def Shows (d : Document) (code : String) : Prop :=
  d.lines.map lineText = (displayLines code.toList).map String.ofList

theorem map_mapIdx_of_forall {α β : Type} {f : Nat → α → α} {g : α → β}
    (h : ∀ i a, g (f i a) = g a) (as : List α) : (as.mapIdx f).map g = as.map g := by
  apply List.ext_getElem
  · simp
  · intro i hleft hright
    simp [h]

/-- No pass changes what a line reads. -/
theorem lineText_onLine (p : Pass) (c : PassContext) (i : Nat) (line : Element) :
    lineText (p.onLine c i line) = lineText line := by
  cases p with
  | highlight =>
      simp only [Pass.onLine]
      split
      · unfold lineText
        rw [Pass.isNumbered_withClass, Element.children_withClass]
      · rfl
  | lineNumbers =>
      simp only [Pass.onLine]
      split
      · rfl
      · rename_i hnew
        unfold lineText
        rw [if_pos (Pass.isNumbered_cons_numberSpan _ line), if_neg hnew]
        rfl
  | _ => rfl

/-- **Passes.**  They leave the source as it is. -/
theorem Shows.applyAll {d : Document} {code : String} (h : Shows d code) (c : PassContext)
    (passes : List Pass) : Shows (Pass.applyAll passes c d) code := by
  induction passes generalizing d with
  | nil => exact h
  | cons p rest ih =>
      have hstep : Shows (p.apply c d) code := by
        unfold Shows at h ⊢
        rw [Pass.lines_apply, map_mapIdx_of_forall (lineText_onLine p c)]
        exact h
      exact ih hstep

theorem hasClass_line (children : List Node) :
    ({ tag := "span", attrs := [("class", lineClass)], children } : Element).hasClass lineClass =
      true := by
  have hclass : (Element.classesOf lineClass).contains lineClass = true := by decide +kernel
  exact hclass

/-- **Plain text.**  Without an engine the source is shown as it is. -/
theorem shows_plain (code : String) : Shows (Document.plain code) code := by
  have hlines : ∀ e ∈ (displayLines code.toList).map Document.plainLine,
      e.hasClass lineClass = true := by
    intro e he
    obtain ⟨line, -, rfl⟩ := List.mem_map.mp he
    unfold Document.plainLine
    dsimp only
    split <;> exact hasClass_line _
  have htext : ∀ line, lineText (Document.plainLine line) = String.ofList line := by
    intro line
    cases line with
    | nil => rfl
    | cons c rest =>
        change String.ofList (c :: rest) ++ "" = _
        rw [String.append_empty]
  unfold Shows Document.plain
  rw [lines_ofLines rfl hlines, List.map_map]
  exact List.map_congr_left fun line _ => htext line

namespace Bundled

theorem textOfNodes_append (front back : List Node) :
    textOfNodes (front ++ back) = textOfNodes front ++ textOfNodes back := by
  induction front with
  | nil => simp [textOfNodes]
  | cons n rest ih =>
      rw [List.cons_append, textOfNodes, textOfNodes, ih, String.append_assoc]

theorem textOfNodes_appendText (piece : String) (nodes : List Node) :
    textOfNodes (appendText piece nodes) = textOfNodes nodes ++ piece := by
  fun_induction appendText piece nodes with
  | case1 => simp [textOfNodes, Node.textContent]
  | case2 value => simp [textOfNodes, Node.textContent]
  | case3 n rest _ ih => rw [textOfNodes, ih, textOfNodes, String.append_assoc]

/-- A piece is appended to the text, in a color or without one. -/
theorem textOfNodes_appendPiece (nodes : List Node) (piece : String) (color : Option Color) :
    textOfNodes (appendPiece nodes piece color) = textOfNodes nodes ++ piece := by
  cases color with
  | none => exact textOfNodes_appendText piece nodes
  | some c =>
      rw [appendPiece, textOfNodes_append]
      simp [textOfNodes, Node.textContent]

/-- None of the nodes carries a class. -/
def Classless (nodes : List Node) : Prop :=
  ∀ n ∈ nodes, ∀ e, n.element? = some e → e.classes = []

theorem Classless.appendPiece {nodes : List Node} (h : Classless nodes) (piece : String)
    (color : Option Color) : Classless (appendPiece nodes piece color) := by
  cases color with
  | none =>
      change Classless (appendText piece nodes)
      fun_induction appendText piece nodes with
      | case1 =>
          intro n hn e he
          obtain rfl := List.mem_singleton.mp hn
          cases he
      | case2 value =>
          intro n hn e he
          obtain rfl := List.mem_singleton.mp hn
          cases he
      | case3 n rest _ ih =>
          have hrest := ih fun m hm => h m (List.mem_cons_of_mem n hm)
          intro m hm
          rcases List.mem_cons.mp hm with rfl | hm
          · exact h m List.mem_cons_self
          · exact hrest m hm
  | some c =>
      intro n hn e he
      rcases List.mem_append.mp hn with hn | hn
      · exact h n hn e he
      · obtain rfl := List.mem_singleton.mp hn
        cases he
        rfl

/-- The nodes of a line, piece by piece. -/
def pieceNodes (theme : Theme) (line : List Char) (nodes : List Node)
    (spans : List Syntax.Segment) : List Node :=
  spans.foldl (fun nodes s =>
    appendPiece nodes (String.ofList (s.piece line)) (segmentColor theme s)) nodes

theorem children_renderLine (theme : Theme) (tokens : List Syntax.Token) (line : List Char) :
    (renderLine theme tokens line).children =
      pieceNodes theme line [] (Syntax.segments tokens line.length) := rfl

theorem textOfNodes_pieceNodes (theme : Theme) (line : List Char) (nodes : List Node)
    (spans : List Syntax.Segment) :
    textOfNodes (pieceNodes theme line nodes spans) =
      textOfNodes nodes ++ String.ofList (spans.flatMap (·.piece line)) := by
  induction spans generalizing nodes with
  | nil => simp [pieceNodes]
  | cons s rest ih =>
      have hrest := ih (appendPiece nodes (String.ofList (s.piece line)) (segmentColor theme s))
      rw [textOfNodes_appendPiece, String.append_assoc, ← String.ofList_append] at hrest
      exact hrest

theorem Classless.pieceNodes {theme : Theme} {line : List Char} {nodes : List Node}
    (h : Classless nodes) (spans : List Syntax.Segment) :
    Classless (pieceNodes theme line nodes spans) := by
  induction spans generalizing nodes with
  | nil => exact h
  | cons s rest ih => exact ih (h.appendPiece _ _)

/-- Pieces are no line numbers. -/
theorem Classless.isNumbered {line : Element} (h : Classless line.children) :
    Pass.isNumbered line = false := by
  unfold Pass.isNumbered
  cases hhead : line.children with
  | nil => rfl
  | cons n rest =>
      cases hn : n.element? with
      | none => simp [hn]
      | some e =>
          have hclasses := h n (by rw [hhead]; exact List.mem_cons_self) e hn
          simp [hn, Element.hasClass, hclasses]

/-- **A colored line** reads as the source, whatever its tokens are. -/
theorem lineText_renderLine (theme : Theme) (tokens : List Syntax.Token) (line : List Char) :
    lineText (renderLine theme tokens line) = String.ofList line := by
  have hempty : Classless [] := by
    intro n hn
    cases hn
  have hclassless : Classless (renderLine theme tokens line).children :=
    hempty.pieceNodes (Syntax.segments tokens line.length)
  unfold lineText
  rw [if_neg (by rw [hclassless.isNumbered]; exact Bool.false_ne_true), children_renderLine,
    textOfNodes_pieceNodes, Syntax.flatMap_piece_segments]
  simp [textOfNodes]

/-- **A colored block** has the colored lines of its source. -/
theorem lines_renderDocument (code : String) (highlights : Syntax.Highlights) (theme : Theme) :
    (renderDocument code highlights theme).lines =
      (displayLines code.toList).mapIdx fun row line =>
        renderLine theme (highlights.onRow row) line := by
  have hlines : ∀ e ∈ (displayLines code.toList).mapIdx (fun row line =>
      renderLine theme (highlights.onRow row) line), e.hasClass lineClass = true := by
    intro e he
    obtain ⟨i, hi, rfl⟩ := List.mem_mapIdx.mp he
    exact hasClass_line _
  rw [renderDocument, lines_ofLines (by simp) hlines]

theorem shows_renderDocument (code : String) (highlights : Syntax.Highlights) (theme : Theme) :
    Shows (renderDocument code highlights theme) code := by
  unfold Shows
  rw [lines_renderDocument]
  apply List.ext_getElem
  · simp
  · intro i hleft hright
    simp [lineText_renderLine]

end Bundled

/-- An engine all of whose documents show their source. -/
def Engine.Faithful {σ : Type} (engine : Engine σ) : Prop :=
  ∀ code language theme state d, (engine.render code language theme state).1 = .ok d →
    Shows d code

theorem Bundled.faithful_engineWith (analyse : Syntax.Analysis) (around : Surroundings) :
    (engineWith analyse around).Faithful := by
  intro code language theme b d h
  obtain ⟨highlights, t, rfl⟩ := exists_renderDocument h
  exact shows_renderDocument code highlights t

theorem vouches_shows {σ : Type} {engine : Engine σ} (h : engine.Faithful) :
    Vouches engine Shows where
  rendered := h
  plain := shows_plain

namespace Session

open Pipeline

/-- Every block of a faithful engine shows its source, through any history. -/
theorem shows_render {σ : Type} {engine : Engine σ} (hfaithful : engine.Faithful) (state : σ)
    (s : Settings) (events : List Event) (code language : String) (config : BlockConfig)
    (asked : Option String) :
    Shows (((start engine state s).live events).render code language config asked) code := by
  have hvouches := vouches_shows hfaithful
  have hlive := supplied_live hvouches state s events
  exact (hvouches.highlighted hlive code language _ _).applyAll _ _

/-- **The source survives.**  Whatever tokens the grammars find, whatever the
files and settings are, and through any history of calls and new settings: a
block of the bundled engine has the lines of its source, in order, and each
line without its number reads as the line of the source. -/
theorem lines_render_eq_displayLines (analyse : Syntax.Analysis) (around : Surroundings)
    (state : Bundled) (s : Settings) (events : List Event) (code language : String)
    (config : BlockConfig) (asked : Option String) :
    let x := (start (Bundled.engineWith analyse around) state s).live events
    (x.render code language config asked).lines.map lineText =
      (displayLines code.toList).map String.ofList :=
  shows_render (Bundled.faithful_engineWith analyse around) state s events code language config
    asked

end Session

end CodeFence
