import CodeFence.Proofs.LineSearch
import CodeFence.Proofs.PassEdits

/-!
# What is left of a block under its passes

Whatever passes run over a block, its lines stay where they are: each of them
may get the mark and, in front of what it holds, one number.  Beside the code
stand the nodes that stood there, and directly before the code what the passes
have put there.

* `dressed`, `foldl_onLine` — what many passes make of one line;
* `tag_dressed`, `children_dressed`, `hasClass_dressed` — what that is;
* `cut_mapLines`, `cut_insertBeforeCode` — what is in front of the code and what
  is from there on, after a change;
* `Edit.apply_beside`, `Edit.foldl_beside` — what edits do beside the code;
* `applyAll_dressed` — what passes do to a block.
-/

namespace CodeFence

open Markup

namespace Pass

variable {passes : List Pass} {c : PassContext} {i : Nat} {line : Element}

/-- The line under a pass, if that is among the passes. -/
def onLineIf (p : Pass) (passes : List Pass) (c : PassContext) (i : Nat) (line : Element) :
    Element :=
  if p ∈ passes then p.onLine c i line else line

/-- What passes make of a line: a number and a mark, if there are passes for them. -/
def dressed (passes : List Pass) (c : PassContext) (i : Nat) (line : Element) : Element :=
  highlight.onLineIf passes c i (lineNumbers.onLineIf passes c i line)

theorem onLineIf_comm (p q : Pass) :
    p.onLineIf passes c i (q.onLine c i line) = q.onLine c i (p.onLineIf passes c i line) := by
  unfold onLineIf
  split
  · exact onLine_comm p q
  · rfl

/-- A pass that comes once more does nothing more. -/
theorem onLineIf_cons_self (p : Pass) :
    p.onLineIf (p :: passes) c i line = p.onLineIf passes c i (p.onLine c i line) := by
  unfold onLineIf
  rw [if_pos List.mem_cons_self]
  split
  · exact (onLine_onLine p).symm
  · rfl

theorem onLineIf_cons_of_ne {p q : Pass} (h : p ≠ q) :
    p.onLineIf (q :: passes) c i line = p.onLineIf passes c i line := by
  simp [onLineIf, h]

/-- **Many passes over one line** number and mark it at most once. -/
theorem foldl_onLine (passes : List Pass) (line : Element) :
    passes.foldl (fun line p => p.onLine c i line) line = dressed passes c i line := by
  induction passes generalizing line with
  | nil => rfl
  | cons p rest ih =>
      rw [List.foldl_cons, ih, dressed, dressed]
      cases p with
      | highlight =>
          rw [onLineIf_cons_self highlight, onLineIf_comm lineNumbers highlight,
            onLineIf_cons_of_ne (show lineNumbers ≠ highlight by decide)]
      | lineNumbers =>
          rw [onLineIf_cons_self lineNumbers,
            onLineIf_cons_of_ne (show highlight ≠ lineNumbers by decide)]
      | _ =>
          rw [onLineIf_cons_of_ne (by decide), onLineIf_cons_of_ne (by decide)]
          rfl

/-! ## A line under passes -/

/-- What marks a line changes its classes, and nothing else of it. -/
theorem onLineIf_highlight_cases :
    highlight.onLineIf passes c i line = line ∨
      highlight.onLineIf passes c i line = line.withClass highlightedClass := by
  unfold onLineIf
  split
  · simp only [onLine]
    split
    · exact Or.inr rfl
    · exact Or.inl rfl
  · exact Or.inl rfl

/-- What numbers a line puts a number in front of what it holds. -/
theorem onLineIf_lineNumbers :
    lineNumbers.onLineIf passes c i line = { line with
      children := if lineNumbers ∈ passes ∧ isNumbered line = false then
        (numberSpan (c.config.startLine + i)).toNode :: line.children else line.children } := by
  unfold onLineIf
  by_cases hp : lineNumbers ∈ passes
  · by_cases hline : isNumbered line = true
    · simp [hp, hline, onLine]
    · simp [hp, hline, onLine]
  · simp [hp]

theorem tag_dressed : (dressed passes c i line).tag = line.tag := by
  rw [dressed, onLineIf_lineNumbers]
  rcases onLineIf_highlight_cases with h | h <;> rw [h]
  rw [Element.tag_withClass]

theorem attr?_dressed {name : String} (hname : name ≠ "class") :
    (dressed passes c i line).attr? name = line.attr? name := by
  rw [dressed, onLineIf_lineNumbers]
  rcases onLineIf_highlight_cases with h | h <;> rw [h]
  · rfl
  · exact Element.attr?_withClass_of_ne _ _ hname

theorem children_dressed :
    (dressed passes c i line).children =
      if lineNumbers ∈ passes ∧ isNumbered line = false then
        (numberSpan (c.config.startLine + i)).toNode :: line.children
      else line.children := by
  rw [dressed, onLineIf_lineNumbers]
  rcases onLineIf_highlight_cases with h | h <;> rw [h]
  rw [Element.children_withClass]

/-- **The classes of a line under passes**: its own, and the mark if there is a
pass for it and the line is among those to mark. -/
theorem hasClass_dressed (hvalid : c.config.isValid = true) {cls : String} :
    (dressed passes c i line).hasClass cls = true ↔
      line.hasClass cls = true ∨
        cls = highlightedClass ∧ highlight ∈ passes ∧ i + 1 ∈ c.config.highlightLines := by
  have hword : Element.classesOf highlightedClass = [highlightedClass] := by decide +kernel
  have hmarked : ∀ e : Element, (e.withClass highlightedClass).hasClass cls = true ↔
      e.hasClass cls = true ∨ cls = highlightedClass := by
    intro e
    rw [Element.hasClass_withClass, hword]
    by_cases hcls : cls = highlightedClass
    · subst hcls
      cases e.hasClass highlightedClass <;> simp
    · simp [hcls]
  rw [dressed, onLineIf_lineNumbers, ← BlockConfig.isHighlighted_iff hvalid, onLineIf]
  by_cases hp : highlight ∈ passes
  · rw [if_pos hp]
    simp only [onLine]
    by_cases hline : c.config.isHighlighted (i + 1) = true
    · rw [if_pos hline, hmarked]
      simp only [hp, hline, and_true]
      rfl
    · rw [if_neg hline]
      simp only [hline, and_false, or_false, Bool.false_eq_true]
      rfl
  · rw [if_neg hp]
    simp only [hp, false_and, and_false, or_false]
    rfl

end Pass

/-! ## Beside the code -/

namespace Markup

/-- The `code` element with its lines changed in place. -/
def inLines (f : Nat → Element → Element) (code : Element) : Element :=
  { code with children := mapLineNodes f 0 code.children }

variable {f g : Nat → Element → Element}

/-- Lines that are changed twice are changed by one thing after the other. -/
theorem mapLineNodes_mapLineNodes
    (hf : ∀ i e, e.hasClass lineClass = true → (f i e).hasClass lineClass = true) (i : Nat)
    (nodes : List Node) :
    mapLineNodes g i (mapLineNodes f i nodes) =
      mapLineNodes (fun i line => g i (f i line)) i nodes := by
  induction nodes generalizing i with
  | nil => rfl
  | cons n rest ih =>
      cases hn : n.element? with
      | none => simp [mapLineNodes, hn, ih]
      | some e =>
          by_cases hline : e.hasClass lineClass = true
          · simp [mapLineNodes, hn, hline, hf i e hline, ih]
          · simp [mapLineNodes, hn, hline, ih]

theorem mapFirst_inLines_inLines
    (hf : ∀ i e, e.hasClass lineClass = true → (f i e).hasClass lineClass = true)
    (nodes : List Node) :
    mapFirst "code" (inLines g) (mapFirst "code" (inLines f) nodes) =
      mapFirst "code" (inLines fun i line => g i (f i line)) nodes := by
  induction nodes with
  | nil => rfl
  | cons n rest ih =>
      cases hn : n.element? with
      | none => simp [mapFirst, hn, ih]
      | some e =>
          by_cases htag : e.tag = "code"
          · simp [mapFirst, hn, htag, inLines, mapLineNodes_mapLineNodes hf]
          · simp [mapFirst, hn, htag, ih]

/-- Nodes in front of the first `code` element are left alone. -/
theorem mapFirst_append {f : Element → Element} {front back : List Node}
    (h : ∀ n ∈ front, Pass.isCode n = false) :
    mapFirst "code" f (front ++ back) = front ++ mapFirst "code" f back := by
  induction front with
  | nil => rfl
  | cons n rest ih =>
      have hn : Pass.isCode n = false := h n List.mem_cons_self
      have hrest := ih fun m hm => h m (List.mem_cons_of_mem n hm)
      rw [List.cons_append, mapFirst, hrest]
      cases he : n.element? with
      | none => rfl
      | some e =>
          have htag : e.tag ≠ "code" := by simpa [Pass.isCode, he] using hn
          exact if_neg htag

/-- Lines that are left alone. -/
theorem mapFirst_inLines_id (nodes : List Node) :
    mapFirst "code" (inLines fun _ line => line) nodes = nodes :=
  mapFirst_eq_self fun code _ => by
    rw [inLines, mapLineNodes_eq_self fun _ _ _ => rfl]

namespace Document

/-- The nodes of the root in front of the first `code` element, or all of them. -/
def beforeCode (d : Document) : List Node :=
  d.root.children.takeWhile (!Pass.isCode ·)

/-- The nodes of the root from the first `code` element on. -/
def fromCode (d : Document) : List Node :=
  d.root.children.dropWhile (!Pass.isCode ·)

theorem beforeCode_append_fromCode (d : Document) :
    d.beforeCode ++ d.fromCode = d.root.children :=
  List.takeWhile_append_dropWhile

theorem isCode_of_mem_beforeCode {d : Document} {n : Node} (h : n ∈ d.beforeCode) :
    Pass.isCode n = false := by
  simpa using List.all_eq_true.mp List.all_takeWhile n h

/-- A root is cut in front of its first `code` element, or at the end. -/
theorem cut_eq {d : Document} {front back : List Node} (hroot : d.root.children = front ++ back)
    (hfront : ∀ n ∈ front, Pass.isCode n = false)
    (hback : ∀ n, back.head? = some n → Pass.isCode n = true) :
    d.beforeCode = front ∧ d.fromCode = back := by
  rw [beforeCode, fromCode, hroot]
  exact span_append (fun n hn => by rw [hfront n hn]; rfl) fun n hn => by rw [hback n hn]; rfl

/-- What follows the nodes in front of the code begins with the code. -/
theorem isCode_of_head?_fromCode {d : Document} {n : Node} (h : d.fromCode.head? = some n) :
    Pass.isCode n = true := by
  have hstop := List.head?_dropWhile_not (!Pass.isCode ·) d.root.children
  rw [fromCode] at h
  rw [h] at hstop
  simpa using hstop

/-- Changed lines leave what is beside the code as it is. -/
theorem cut_mapLines (d : Document) (f : Nat → Element → Element) :
    (d.mapLines f).beforeCode = d.beforeCode ∧
      (d.mapLines f).fromCode = mapFirst "code" (inLines f) d.fromCode := by
  refine cut_eq ?_ (fun n => isCode_of_mem_beforeCode) fun n hn => ?_
  · change mapFirst "code" (inLines f) d.root.children = _
    rw [← d.beforeCode_append_fromCode, mapFirst_append fun n => isCode_of_mem_beforeCode]
  · cases hfrom : d.fromCode with
    | nil =>
        rw [hfrom] at hn
        cases hn
    | cons first rest =>
        have hfirst : Pass.isCode first = true := isCode_of_head?_fromCode (by rw [hfrom]; rfl)
        obtain ⟨code, hcode, htag⟩ := (Option.any_eq_true _ _).mp hfirst
        rw [hfrom, mapFirst, hcode] at hn
        dsimp only at hn
        rw [if_pos (of_decide_eq_true htag)] at hn
        obtain rfl := Option.some.inj hn
        exact htag

/-- What is put beside the code stands directly before it. -/
theorem cut_insertBeforeCode {d d' : Document} {e : Element} (he : e.tag ≠ "code")
    (hroot : d'.root.children = Pass.insertBeforeCode e d.root.children) :
    d'.beforeCode = d.beforeCode ++ [e.toNode] ∧ d'.fromCode = d.fromCode := by
  refine cut_eq ?_ (fun n hn => ?_) fun n => isCode_of_head?_fromCode
  · rw [hroot, Pass.insertBeforeCode_eq, List.append_assoc]
    rfl
  · rcases List.mem_append.mp hn with hn | hn
    · exact isCode_of_mem_beforeCode hn
    · rw [List.mem_singleton.mp hn]
      exact decide_eq_false he

end Document

end Markup

namespace Edit

variable {c : PassContext} {d : Document} {e : Edit}

/-- What an edit does to a line. -/
def onLine (c : PassContext) (i : Nat) (line : Element) : Edit → Element
  | eachLine p => p.onLine c i line
  | _ => line

/-- The node is put beside the code by the edit. -/
def Puts (n : Node) : Edit → Prop
  | chrome _ e => n = e.toNode
  | _ => False

theorem hasClass_onLine (e : Edit) (i : Nat) (line : Element)
    (h : line.hasClass lineClass = true) : (e.onLine c i line).hasClass lineClass = true := by
  cases e with
  | eachLine p => exact Pass.hasClass_onLine i line h
  | _ => exact h

/-- **Beside the code** an edit adds at most what it puts there, directly before
the code; behind that it changes lines only. -/
theorem apply_beside (he : e.Sound c) :
    (∃ put, (∀ n ∈ put, e.Puts n) ∧ (e.apply c d).beforeCode = d.beforeCode ++ put) ∧
      (e.apply c d).fromCode =
        mapFirst "code" (inLines fun i line => e.onLine c i line) d.fromCode := by
  -- Edits of the root put nothing in front of the code and leave the lines alone.
  have hsame : (∀ i line, e.onLine c i line = line) →
      (e.apply c d).root.children = d.root.children →
      (∃ put, (∀ n ∈ put, e.Puts n) ∧ (e.apply c d).beforeCode = d.beforeCode ++ put) ∧
        (e.apply c d).fromCode =
          mapFirst "code" (inLines fun i line => e.onLine c i line) d.fromCode := by
    intro hline hchildren
    refine ⟨⟨[], fun _ hn => absurd hn List.not_mem_nil, ?_⟩, ?_⟩
    · rw [Document.beforeCode, hchildren, List.append_nil]
      rfl
    · simp only [hline]
      rw [Document.fromCode, hchildren, mapFirst_inLines_id]
      rfl
  cases e with
  | rootClass name => exact hsame (fun _ _ => rfl) (Element.children_withClass d.root name)
  | rootAttr name value => exact hsame (fun _ _ => rfl) rfl
  | chrome cls e =>
      by_cases hthere : (d.root.positionOfClass? cls).isSome = true
      · have hdone : (chrome cls e).apply c d = d := if_pos hthere
        exact hsame (fun _ _ => rfl) (by rw [hdone])
      · have hnew : ((chrome cls e).apply c d).root.children =
            Pass.insertBeforeCode e d.root.children := by
          change (Pass.addChrome d cls e).root.children = _
          rw [Pass.addChrome, if_neg hthere]
          rfl
        obtain ⟨hbefore, hfrom⟩ := Document.cut_insertBeforeCode he.2 hnew
        refine ⟨⟨[e.toNode], fun n hn => List.mem_singleton.mp hn, hbefore⟩, hfrom.trans ?_⟩
        exact (mapFirst_inLines_id _).symm
  | eachLine p =>
      obtain ⟨hbefore, hfrom⟩ := d.cut_mapLines (p.onLine c)
      refine ⟨⟨[], fun _ hn => absurd hn List.not_mem_nil, ?_⟩, hfrom⟩
      rw [List.append_nil]
      exact hbefore

/-- **Beside the code**, after many edits. -/
theorem foldl_beside {edits : List Edit} (hedits : ∀ e ∈ edits, e.Sound c) (d : Document) :
    let out := edits.foldl (Edit.apply c) d
    (∃ put, (∀ n ∈ put, ∃ e ∈ edits, e.Puts n) ∧ out.beforeCode = d.beforeCode ++ put) ∧
      out.fromCode = mapFirst "code"
        (inLines fun i line => edits.foldl (fun line e => e.onLine c i line) line) d.fromCode := by
  induction edits generalizing d with
  | nil => exact ⟨⟨[], by simp, by simp⟩, (mapFirst_inLines_id _).symm⟩
  | cons e rest ih =>
      have hsound := hedits e List.mem_cons_self
      obtain ⟨⟨first, hfirst, hbefore⟩, hfrom⟩ := apply_beside (d := d) hsound
      obtain ⟨⟨more, hmore, hbefore'⟩, hfrom'⟩ :=
        ih (fun e' he' => hedits e' (List.mem_cons_of_mem e he')) (e.apply c d)
      refine ⟨⟨first ++ more, fun n hn => ?_, ?_⟩, ?_⟩
      · rcases List.mem_append.mp hn with hn | hn
        · exact ⟨e, List.mem_cons_self, hfirst n hn⟩
        · obtain ⟨e', he', hputs⟩ := hmore n hn
          exact ⟨e', List.mem_cons_of_mem e he', hputs⟩
      · rw [List.foldl_cons, hbefore', hbefore, List.append_assoc]
      · rw [List.foldl_cons, hfrom', hfrom, mapFirst_inLines_inLines e.hasClass_onLine]
        rfl

end Edit

namespace Pass

variable {c : PassContext}

/-- The element that a pass puts beside the code. -/
def chrome? (c : PassContext) : Pass → Option Element
  | title => c.config.displayTitle.map (titleBar c.config)
  | languageLabel => some (languageTag c.language)
  | copyButton => some copyTag
  | _ => none

/-- The edits of a pass put nothing else beside the code. -/
theorem chrome?_of_puts {p : Pass} {e : Edit} {n : Node} (he : e ∈ p.edits c) (hn : e.Puts n) :
    ∃ el, p.chrome? c = some el ∧ n = el.toNode := by
  cases e with
  | chrome cls el =>
      refine ⟨el, ?_, hn⟩
      cases p with
      | title =>
          cases htitle : c.config.displayTitle with
          | none => simp [edits, htitle] at he
          | some text =>
              simp only [edits, htitle, List.mem_cons, List.not_mem_nil, or_false, reduceCtorEq,
                false_or, Edit.chrome.injEq] at he
              rw [chrome?, htitle, he.2]
              rfl
      | languageLabel =>
          simp only [edits, List.mem_cons, List.not_mem_nil, or_false, reduceCtorEq, false_or,
            Edit.chrome.injEq] at he
          rw [he.2]
          rfl
      | copyButton =>
          simp only [edits, List.mem_cons, List.not_mem_nil, or_false, reduceCtorEq, false_or,
            Edit.chrome.injEq] at he
          rw [he.2]
          rfl
      | lineNumbers => by_cases hstart : c.config.startLine = 1 <;> simp [edits, hstart] at he
      | fold => by_cases hfold : c.config.fold = true <;> simp [edits, hfold] at he
      | _ => simp [edits] at he
  | _ => exact hn.elim

/-- The edits of a pass do to a line what the pass does. -/
theorem foldl_onLine_edits (p : Pass) (i : Nat) (line : Element) :
    (p.edits c).foldl (fun line e => e.onLine c i line) line = p.onLine c i line := by
  cases p with
  | lineNumbers =>
      by_cases hstart : c.config.startLine = 1 <;> simp [edits, hstart, Edit.onLine]
  | title =>
      cases htitle : c.config.displayTitle <;> simp [edits, htitle, Edit.onLine, onLine]
  | fold => by_cases hfold : c.config.fold = true <;> simp [edits, hfold, Edit.onLine, onLine]
  | _ => rfl

theorem lines_applyAll (passes : List Pass) (c : PassContext) (d : Document) :
    (applyAll passes c d).lines = d.lines.mapIdx (dressed passes c) := by
  have hfold : (applyAll passes c d).lines =
      d.lines.mapIdx fun i line => passes.foldl (fun line p => p.onLine c i line) line := by
    induction passes generalizing d with
    | nil => simp [applyAll, mapIdx_id]
    | cons p rest ih =>
        change (applyAll rest c (p.apply c d)).lines = _
        rw [ih, lines_apply, List.mapIdx_mapIdx]
        rfl
  simp only [hfold, foldl_onLine]

/-- **What passes do to a block.**  Whatever block it is, and whatever passes
come, in whatever order and however often: the root holds what it held, with
nothing new but what the passes put directly before the first `code` element,
or at the end if there is none; and that element holds what it held, with each
line, counted from zero, dressed.  A dressed line has its tag and its attributes
but for its classes; these are its own, and the mark exactly if there is a pass
for marks and the line is to be marked; and it holds what it held, with the
line's number in front exactly if there is a pass for numbers and no number was
there. -/
theorem applyAll_dressed (hvalid : c.config.isValid = true) (passes : List Pass) (d : Document) :
    let out := applyAll passes c d
    ∃ (dress : Nat → Element → Element) (chrome : List Node),
      out.root.children = d.beforeCode ++ chrome ++ mapFirst "code" (inLines dress) d.fromCode ∧
      (∀ n ∈ chrome, ∃ p ∈ passes, ∃ e, p.chrome? c = some e ∧ n = e.toNode) ∧
      out.lines = d.lines.mapIdx dress ∧
      ∀ i line,
        (dress i line).tag = line.tag ∧
        (∀ name, name ≠ "class" → (dress i line).attr? name = line.attr? name) ∧
        (∀ cls, (dress i line).hasClass cls = true ↔ line.hasClass cls = true ∨
          cls = highlightedClass ∧ highlight ∈ passes ∧ i + 1 ∈ c.config.highlightLines) ∧
        (dress i line).children =
          if lineNumbers ∈ passes ∧ isNumbered line = false then
            (numberSpan (c.config.startLine + i)).toNode :: line.children
          else line.children := by
  intro out
  have hsound : ∀ e ∈ passes.flatMap (edits c), e.Sound c := by
    intro e he
    obtain ⟨p, -, hp⟩ := List.mem_flatMap.mp he
    exact p.sound_of_mem_edits e hp
  -- The passes are one row of edits, and each edit works on one side of the code.
  obtain ⟨⟨chrome, hchrome, hbefore⟩, hfrom⟩ := Edit.foldl_beside hsound d
  rw [← applyAll_eq_foldl_edits] at hbefore hfrom
  simp only [List.foldl_flatMap, foldl_onLine_edits, foldl_onLine] at hfrom
  refine ⟨dressed passes c, chrome, ?_, fun n hn => ?_, lines_applyAll passes c d,
    fun i line => ⟨tag_dressed, fun name hname => attr?_dressed hname, fun cls =>
      hasClass_dressed hvalid, children_dressed⟩⟩
  · rw [← Document.beforeCode_append_fromCode, hbefore, hfrom]
  · obtain ⟨e, he, hputs⟩ := hchrome n hn
    obtain ⟨p, hp, hmem⟩ := List.mem_flatMap.mp he
    exact ⟨p, hp, chrome?_of_puts hmem hputs⟩

/-- Numbers from 41 on, the second line marked, and every pass named twice. -/
theorem applyAll_dressed_second_line :
    let c : PassContext :=
      { config := { language := "text", highlightLines := [2], startLine := 41 }
        code := "a\nb\nc", language := "text" }
    let d := Document.plain c.code
    c.config.isValid = true ∧
    ∃ dress : Nat → Element → Element,
      (applyAll (all ++ all.reverse) c d).lines = d.lines.mapIdx dress ∧
      ∀ i line,
        ((dress i line).hasClass highlightedClass = true ↔
          line.hasClass highlightedClass = true ∨ i = 1) ∧
        (isNumbered line = false →
          (dress i line).children = (numberSpan (41 + i)).toNode :: line.children) := by
  intro c d
  have hvalid : c.config.isValid = true := by decide +kernel
  have hmarks : highlight ∈ all ++ all.reverse := by decide
  have hnumbers : lineNumbers ∈ all ++ all.reverse := by decide
  obtain ⟨dress, -, -, -, hlines, hdress⟩ := applyAll_dressed hvalid (all ++ all.reverse) d
  refine ⟨hvalid, dress, hlines, fun i line => ?_⟩
  obtain ⟨-, -, hclasses, hchildren⟩ := hdress i line
  refine ⟨?_, fun hline => ?_⟩
  · have hsecond : i + 1 ∈ c.config.highlightLines ↔ i = 1 := by
      change i + 1 ∈ [2] ↔ i = 1
      rw [List.mem_singleton]
      omega
    rw [hclasses, hsecond]
    simp only [hmarks, true_and]
  · rw [hchildren, if_pos ⟨hnumbers, hline⟩]

end Pass

end CodeFence
