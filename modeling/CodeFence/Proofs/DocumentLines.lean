import CodeFence.Pass
import CodeFence.Proofs.ElementClasses

/-!
# The lines of a block

A block keeps its lines in its first `code` element.  Nothing that is done to
the root or put beside that element touches them, and a pass changes each line
by itself.

* `lines_ofLines` — a block is made of the lines that it is made of;
* `lines_mapLines` — changing lines in place keeps their number and order;
* `mapLines_eq_self` — it does nothing if it leaves every line as it is;
* `Pass.lines_apply` — what each pass does to one line, and that it does
  nothing else to the lines.
-/

namespace CodeFence.Markup

theorem Node.eq_of_element? {n : Node} {e : Element} (h : n.element? = some e) :
    n = e.toNode := by
  cases n with
  | text value => cases h
  | element tag attrs children =>
      obtain rfl := Option.some.inj h
      rfl

/-- The line elements among nodes. -/
def lineElements (nodes : List Node) : List Element :=
  (nodes.filterMap Node.element?).filter (·.hasClass lineClass)

/-- The first element with a tag among nodes. -/
def firstElement? (tag : String) (nodes : List Node) : Option Element :=
  (nodes.filterMap Node.element?).find? (·.tag = tag)

theorem lines_eq (d : Document) :
    d.lines = ((firstElement? "code" d.root.children).map fun code =>
      lineElements code.children).getD [] := by
  have hcode : d.code? = firstElement? "code" d.root.children := rfl
  unfold Document.lines
  rw [hcode]
  cases firstElement? "code" d.root.children <;> rfl

theorem firstElement?_mapFirst (tag : String) (f : Element → Element)
    (hf : ∀ e, (f e).tag = e.tag) (nodes : List Node) :
    firstElement? tag (mapFirst tag f nodes) = (firstElement? tag nodes).map f := by
  induction nodes with
  | nil => rfl
  | cons n rest ih =>
      unfold mapFirst
      cases hn : n.element? with
      | none =>
          dsimp only
          simpa [firstElement?, List.filterMap_cons, hn] using ih
      | some e =>
          dsimp only
          by_cases htag : e.tag = tag
          · rw [if_pos htag]
            simp [firstElement?, hn, htag, hf]
          · rw [if_neg htag]
            simpa [firstElement?, List.filterMap_cons, hn, htag] using ih

/-- Lines that stay lines keep their number and their order. -/
theorem lineElements_mapLineNodes {f : Nat → Element → Element}
    (hf : ∀ i e, e.hasClass lineClass = true → (f i e).hasClass lineClass = true) (i : Nat)
    (nodes : List Node) :
    lineElements (mapLineNodes f i nodes) = (lineElements nodes).mapIdx fun j => f (i + j) := by
  induction nodes generalizing i with
  | nil => rfl
  | cons n rest ih =>
      unfold mapLineNodes
      cases hn : n.element? with
      | none =>
          dsimp only
          simpa [lineElements, List.filterMap_cons, hn] using ih i
      | some e =>
          dsimp only
          by_cases hline : e.hasClass lineClass = true
          · have hkept := hf i e hline
            have hrest := ih (i + 1)
            have hshift : (fun j => f (i + 1 + j)) = fun j => f (i + (j + 1)) := by
              funext j
              rw [Nat.add_assoc, Nat.add_comm 1 j]
            rw [if_pos hline]
            simp only [lineElements, List.filterMap_cons, Node.element?_toNode, hn,
              List.filter_cons, hkept, hline, if_true, List.mapIdx_cons, Nat.add_zero]
            rw [hshift] at hrest
            exact congrArg _ hrest
          · rw [if_neg hline]
            simpa [lineElements, List.filterMap_cons, hn, hline] using ih i

/-- **Changing lines in place.** -/
theorem lines_mapLines (d : Document) {f : Nat → Element → Element}
    (hf : ∀ i e, e.hasClass lineClass = true → (f i e).hasClass lineClass = true) :
    (d.mapLines f).lines = d.lines.mapIdx f := by
  rw [lines_eq, lines_eq, Document.mapLines]
  dsimp only
  rw [firstElement?_mapFirst "code"
    (fun code => { code with children := mapLineNodes f 0 code.children }) fun _ => rfl]
  cases firstElement? "code" d.root.children with
  | none => rfl
  | some code =>
      have hlines := lineElements_mapLineNodes hf 0 code.children
      simp only [Nat.zero_add] at hlines
      exact hlines

/-- The first element with a tag is left as it is. -/
theorem mapFirst_eq_self {tag : String} {f : Element → Element} {nodes : List Node}
    (h : ∀ e, firstElement? tag nodes = some e → f e = e) : mapFirst tag f nodes = nodes := by
  induction nodes with
  | nil => rfl
  | cons n rest ih =>
      unfold mapFirst
      cases hn : n.element? with
      | none =>
          dsimp only
          rw [ih fun e he => h e (by simpa [firstElement?, List.filterMap_cons, hn] using he)]
      | some e =>
          dsimp only
          by_cases htag : e.tag = tag
          · rw [if_pos htag, h e (by simp [firstElement?, hn, htag]), ← Node.eq_of_element? hn]
          · rw [if_neg htag, ih fun e' he' =>
              h e' (by simpa [firstElement?, List.filterMap_cons, hn, htag] using he')]

/-- Lines that are all left as they are. -/
theorem mapLineNodes_eq_self {f : Nat → Element → Element} {i : Nat} {nodes : List Node}
    (h : ∀ j line, (lineElements nodes)[j]? = some line → f (i + j) line = line) :
    mapLineNodes f i nodes = nodes := by
  induction nodes generalizing i with
  | nil => rfl
  | cons n rest ih =>
      unfold mapLineNodes
      cases hn : n.element? with
      | none =>
          dsimp only
          rw [ih fun j line hj => h j line (by
            simpa [lineElements, List.filterMap_cons, hn] using hj)]
      | some e =>
          dsimp only
          by_cases hline : e.hasClass lineClass = true
          · have helements : lineElements (n :: rest) = e :: lineElements rest := by
              simp [lineElements, hn, hline]
            have hfirst : f i e = e := h 0 e (by rw [helements]; rfl)
            rw [if_pos hline, hfirst, ← Node.eq_of_element? hn, ih fun j line hj => by
              rw [Nat.add_right_comm]
              exact h (j + 1) line (by rw [helements]; exact hj)]
          · rw [if_neg hline, ih fun j line hj => h j line (by
              simpa [lineElements, List.filterMap_cons, hn, hline] using hj)]

/-- A property of nodes that a change keeps is kept by changing one of them. -/
theorem any_mapFirst {tag : String} {f : Element → Element} {p : Node → Bool}
    (hf : ∀ e, p (f e).toNode = p e.toNode) (nodes : List Node) :
    (mapFirst tag f nodes).any p = nodes.any p := by
  induction nodes with
  | nil => rfl
  | cons n rest ih =>
      unfold mapFirst
      cases hn : n.element? with
      | none => simp [ih]
      | some e =>
          dsimp only
          split
          · rw [List.any_cons, List.any_cons, hf, ← Node.eq_of_element? hn]
          · simp [ih]

/-- A block whose lines are all left as they are. -/
theorem Document.mapLines_eq_self {d : Document} {f : Nat → Element → Element}
    (h : ∀ i line, d.lines[i]? = some line → f i line = line) : d.mapLines f = d := by
  have hchildren : mapFirst "code" (fun code =>
      { code with children := mapLineNodes f 0 code.children }) d.root.children =
        d.root.children := by
    refine mapFirst_eq_self fun code hcode => ?_
    have hlines : d.lines = lineElements code.children := by
      rw [lines_eq, hcode]
      rfl
    rw [mapLineNodes_eq_self fun j line hj => by
      rw [Nat.zero_add]
      exact h j line (by rw [hlines]; exact hj)]
  rw [Document.mapLines, hchildren]

theorem element?_text (value : String) : (Node.text value).element? = none := rfl

/-- Lines in a row, with newlines between them, are found again. -/
theorem filterMap_element?_intersperse (lines : List Element) (separator : String) :
    ((lines.map Element.toNode).intersperse (.text separator)).filterMap Node.element? = lines := by
  induction lines with
  | nil => rfl
  | cons e rest ih =>
      cases rest with
      | nil => rfl
      | cons e' rest =>
          simp only [List.map_cons, List.intersperse_cons_cons, List.filterMap_cons,
            Node.element?_toNode, element?_text] at ih ⊢
          rw [ih]

theorem code?_ofLines {pre : Element} (hpre : pre.children = []) (lines : List Element) :
    (Document.ofLines pre lines).code? =
      some ⟨"code", [], (lines.map Element.toNode).intersperse (.text "\n")⟩ := by
  simp [Document.ofLines, Document.code?, Element.child?, Element.withChild, hpre]

/-- **A new block.**  Its lines are those that it was given. -/
theorem lines_ofLines {pre : Element} (hpre : pre.children = []) {lines : List Element}
    (hlines : ∀ e ∈ lines, e.hasClass lineClass = true) :
    (Document.ofLines pre lines).lines = lines := by
  unfold Document.lines
  rw [code?_ofLines hpre]
  dsimp only
  rw [filterMap_element?_intersperse]
  exact List.filter_eq_self.mpr hlines

theorem lines_mapRoot (d : Document) {f : Element → Element}
    (hf : (f d.root).children = d.root.children) : (d.mapRoot f).lines = d.lines := by
  rw [lines_eq, lines_eq, Document.mapRoot]
  dsimp only
  rw [hf]

end Markup

namespace Pass

open Markup

/-- The node is a `code` element. -/
def isCode (n : Node) : Bool :=
  n.element?.any (·.tag = "code")

theorem insertBeforeCode_cons (e : Element) (n : Node) (rest : List Node) :
    insertBeforeCode e (n :: rest) =
      if isCode n then e.toNode :: n :: rest else n :: insertBeforeCode e rest := rfl

/-- Where an element is put: directly before the first `code` element, or at
the end. -/
theorem insertBeforeCode_eq (e : Element) (nodes : List Node) :
    insertBeforeCode e nodes =
      nodes.takeWhile (!isCode ·) ++ e.toNode :: nodes.dropWhile (!isCode ·) := by
  induction nodes with
  | nil => rfl
  | cons n rest ih =>
      rw [insertBeforeCode_cons]
      by_cases hn : isCode n = true
      · simp [hn]
      · simp [hn, ih]

theorem firstElement?_insertBeforeCode {e : Element} (he : e.tag ≠ "code")
    (nodes : List Node) :
    firstElement? "code" (insertBeforeCode e nodes) = firstElement? "code" nodes := by
  induction nodes with
  | nil => simp [insertBeforeCode, firstElement?, he]
  | cons n rest ih =>
      unfold insertBeforeCode
      split
      · simp [firstElement?, List.filterMap_cons, he]
      · cases hn : n.element? with
        | none => simpa [firstElement?, List.filterMap_cons, hn] using ih
        | some other =>
            by_cases htag : other.tag = "code"
            · simp [firstElement?, hn, htag]
            · simpa [firstElement?, List.filterMap_cons, hn, htag] using ih

/-- What is put beside the `code` element is no line. -/
theorem lines_addChrome (d : Document) (cls : String) {e : Element} (he : e.tag ≠ "code") :
    (addChrome d cls e).lines = d.lines := by
  unfold addChrome
  split
  · rfl
  · rw [lines_eq, lines_eq, Document.mapRoot]
    dsimp only
    rw [firstElement?_insertBeforeCode he]

/-- What a pass does to the line at a place that is counted from zero. -/
def onLine (p : Pass) (c : PassContext) (i : Nat) (line : Element) : Element :=
  match p with
  | highlight => if c.config.isHighlighted (i + 1) then line.withClass highlightedClass else line
  | lineNumbers =>
    if isNumbered line then line
    else { line with
      children := (numberSpan (c.config.startLine + i)).toNode :: line.children }
  | _ => line

theorem isNumbered_withClass (line : Element) (name : String) :
    isNumbered (line.withClass name) = isNumbered line := by
  unfold isNumbered
  rw [Element.children_withClass]

/-- A line with a number in front of it is numbered. -/
theorem isNumbered_cons_numberSpan (n : Nat) (line : Element) :
    isNumbered { line with children := (numberSpan n).toNode :: line.children } = true := by
  have hclasses : (numberSpan n).classes = Element.classesOf numberClass := rfl
  have hclass : (Element.classesOf numberClass).contains numberClass = true := by decide +kernel
  change (numberSpan n).classes.contains numberClass = true
  rw [hclasses]
  exact hclass

theorem hasClass_onLine {p : Pass} {c : PassContext} (i : Nat) (line : Element)
    (h : line.hasClass lineClass = true) : (onLine p c i line).hasClass lineClass = true := by
  cases p with
  | highlight =>
      simp only [onLine]
      split
      · exact Element.hasClass_withClass_of_hasClass line highlightedClass h
      · exact h
  | lineNumbers =>
      simp only [onLine]
      split <;> exact h
  | _ => exact h

theorem mapIdx_id (lines : List Element) : lines.mapIdx (fun _ line => line) = lines := by
  apply List.ext_getElem <;> simp

theorem tag_titleBar (config : BlockConfig) (text : String) :
    (titleBar config text).tag = "div" := by
  unfold titleBar
  split <;> rfl

/-- **What a pass does to the lines.**  It changes each line by itself. -/
theorem lines_apply (p : Pass) (c : PassContext) (d : Document) :
    (p.apply c d).lines = d.lines.mapIdx (onLine p c) := by
  have hline : ∀ i line, line.hasClass lineClass = true →
      (onLine p c i line).hasClass lineClass = true := fun i line h => hasClass_onLine i line h
  -- Passes that change the root or put something beside the code leave the lines alone.
  have hsame : (∀ i line, onLine p c i line = line) → (p.apply c d).lines = d.lines →
      (p.apply c d).lines = d.lines.mapIdx (onLine p c) := by
    intro hid hlines
    have hfun : onLine p c = fun _ line => line := funext fun i => funext fun line => hid i line
    rw [hlines, hfun, mapIdx_id]
  cases p with
  | highlight => exact lines_mapLines d hline
  | lineNumbers =>
      refine (lines_mapLines _ hline).trans ?_
      rw [lines_mapRoot]
      split <;> simp
  | title =>
      refine hsame (fun _ _ => rfl) ?_
      change (addTitle c.config d).lines = d.lines
      unfold addTitle
      cases c.config.displayTitle with
      | none => rfl
      | some text =>
          dsimp only
          rw [lines_addChrome, lines_mapRoot]
          · simp
          · rw [tag_titleBar]
            decide
  | languageLabel =>
      refine hsame (fun _ _ => rfl) ?_
      refine (lines_addChrome _ _ (by simp)).trans (lines_mapRoot d ?_)
      simp
  | copyButton =>
      refine hsame (fun _ _ => rfl) ?_
      refine (lines_addChrome _ _ (by simp)).trans (lines_mapRoot d ?_)
      simp
  | fold =>
      refine hsame (fun _ _ => rfl) (lines_mapRoot d ?_)
      cases c.config.fold <;> simp
  | wordWrap => exact hsame (fun _ _ => rfl) (lines_mapRoot d (by simp))
  | exclude => exact hsame (fun _ _ => rfl) (lines_mapRoot d (by simp))

end Pass

end CodeFence
