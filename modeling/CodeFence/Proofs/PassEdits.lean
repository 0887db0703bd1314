import CodeFence.Proofs.DocumentLines
import CodeFence.Proofs.EntryLists

/-!
# What passes add to a block

Every pass makes a few edits, each of one kind: a class or an attribute of the
root, an element beside the code, or something in each line.  An edit leaves
nothing to do for itself, and what is done stays done under every other edit:
classes are only added, no two edits give one attribute different values, and
marking a line has nothing to do with numbering it.  So passes that have been
applied, in any order and however often, change nothing when they are applied
again.

* `Edit`, `edits`, `apply_eq_foldl_edits` — passes as rows of edits;
* `Edit.Done` — nothing is left to do for an edit;
* `Edit.done_apply`, `Edit.Done.apply` — it holds behind the edit, and no
  other edit undoes it;
* `applyAll_again` — so all passes are idempotent, alone and together.
-/

namespace CodeFence

open Markup

/-- One change that a pass makes to a block. -/
inductive Edit where
  | rootClass (name : String)
  | rootAttr (name value : String)
  /-- Puts an element beside the code, unless one with the class is there. -/
  | chrome (cls : String) (e : Element)
  /-- Does to every line what the pass does to lines. -/
  | eachLine (p : Pass)

namespace Edit

/-- Makes one change. -/
def apply (c : PassContext) (d : Document) : Edit → Document
  | rootClass name => d.mapRoot (·.withClass name)
  | rootAttr name value => d.mapRoot (·.withAttr name value)
  | chrome cls e => Pass.addChrome d cls e
  | eachLine p => d.mapLines (p.onLine c)

end Edit

namespace Pass

/-- The label that names a language. -/
def languageTag (language : String) : Element :=
  { tag := "span", attrs := [("class", "language-label")]
    children := [.text (Syntax.displayName language)] }

/-- The button that copies the source. -/
def copyTag : Element :=
  { tag := "button"
    attrs := [("aria-label", "Copy code"), ("class", "copy-button"), ("type", "button")]
    children := [.text "Copy"] }

/-- How a block says whether it is folded. -/
def foldState (folded : Bool) : String :=
  if folded then "collapsed" else "expanded"

/-- The changes that a pass makes, in order. -/
def edits (c : PassContext) : Pass → List Edit
  | highlight => [.eachLine highlight]
  | lineNumbers =>
    .rootClass "line-numbers" ::
      (if c.config.startLine = 1 then []
        else [.rootAttr "data-start-line" (toString c.config.startLine)]) ++
      [.eachLine lineNumbers]
  | title =>
    match c.config.displayTitle with
    | none => []
    | some text =>
      [.rootClass "with-title", .rootAttr "data-title" text,
        .chrome "code-title" (titleBar c.config text)]
  | languageLabel =>
    [.rootAttr "data-language" c.language, .chrome "language-label" (languageTag c.language)]
  | copyButton => [.rootAttr "data-original-code" c.code, .chrome "copy-button" copyTag]
  | fold =>
    .rootClass "foldable" :: (if c.config.fold then [.rootClass "folded"] else []) ++
      [.rootAttr "data-fold-state" (foldState c.config.fold)]
  | wordWrap => [.rootClass "word-wrap"]
  | exclude => [.rootClass "excluded", .rootAttr "hidden" "hidden"]

/-- **A pass is its changes**, one after the other. -/
theorem apply_eq_foldl_edits (p : Pass) (c : PassContext) (d : Document) :
    p.apply c d = (p.edits c).foldl (Edit.apply c) d := by
  cases p with
  | lineNumbers =>
      unfold edits
      change numberLines c.config.startLine d = _
      unfold numberLines
      by_cases hstart : c.config.startLine = 1
      · simp only [if_pos hstart]
        rfl
      · simp only [if_neg hstart]
        rfl
  | title =>
      unfold edits
      change addTitle c.config d = _
      unfold addTitle
      cases c.config.displayTitle <;> rfl
  | fold =>
      unfold edits
      change makeFoldable c.config.fold d = _
      cases c.config.fold <;> rfl
  | _ => rfl

end Pass

variable {c : PassContext} {d : Document} {e e' : Edit}

namespace Pass

/-- All classes that passes add to the root of a block. -/
def rootClasses : List String :=
  ["line-numbers", "with-title", "foldable", "folded", "word-wrap", "excluded"]

/-- Each of them is one word. -/
theorem contains_classesOf {name : String} (h : name ∈ rootClasses) :
    (Element.classesOf name).contains name = true := by
  have hall : ∀ name ∈ rootClasses, (Element.classesOf name).contains name = true := by
    decide +kernel
  exact hall name h

/-- All attributes that passes give the root of a block. -/
def rootAttrs (c : PassContext) : List (String × String) :=
  [("data-start-line", toString c.config.startLine),
   ("data-title", c.config.displayTitle.getD ""), ("data-language", c.language),
   ("data-original-code", c.code), ("data-fold-state", foldState c.config.fold),
   ("hidden", "hidden")]

theorem rootAttrs_unique {name value value' : String} (h : (name, value) ∈ rootAttrs c)
    (h' : (name, value') ∈ rootAttrs c) : value = value' := by
  have hnodup : ((rootAttrs c).map Prod.fst).Nodup := by
    simp [rootAttrs]
  have hfound := (lookup_eq_some_iff_mem hnodup).mpr h
  rw [(lookup_eq_some_iff_mem hnodup).mpr h'] at hfound
  exact (Option.some.inj hfound).symm

theorem ne_class_of_mem_rootAttrs {name value : String} (h : (name, value) ∈ rootAttrs c) :
    name ≠ "class" := by
  rintro rfl
  simp [rootAttrs] at h

end Pass

namespace Edit

/-- What all edits of passes have in common: classes and attributes are among
those that passes give the root, and what is put beside the code carries its
class and is not the code. -/
def Sound (c : PassContext) : Edit → Prop
  | rootClass name => name ∈ Pass.rootClasses
  | rootAttr name value => (name, value) ∈ Pass.rootAttrs c
  | chrome cls e => e.hasClass cls = true ∧ e.tag ≠ "code"
  | eachLine _ => True

/-- Nothing is left to do for an edit. -/
def Done (c : PassContext) (d : Document) : Edit → Prop
  | rootClass name => d.root.hasClass name = true
  | rootAttr name value => insertEntry name value d.root.attrs = d.root.attrs
  | chrome cls _ => (d.root.positionOfClass? cls).isSome = true
  | eachLine p => ∀ i line, d.lines[i]? = some line → p.onLine c i line = line

theorem apply_of_done (h : e.Done c d) : e.apply c d = d := by
  cases e with
  | rootClass name =>
      have hthere : d.root.hasClass name = true := h
      have hroot : d.root.withClass name = d.root := by
        rw [Element.withClass, hthere, Bool.or_true, if_pos rfl]
      rw [apply, Document.mapRoot, hroot]
  | rootAttr name value =>
      have hattrs : insertEntry name value d.root.attrs = d.root.attrs := h
      rw [apply, Document.mapRoot, Element.withAttr, hattrs]
  | chrome cls e => exact if_pos h
  | eachLine p => exact Document.mapLines_eq_self h

/-! ## What an edit leaves alone -/

/-- The classes of the root after an edit: none is lost. -/
theorem hasClass_root_apply (he : e.Sound c) {name : String} (h : d.root.hasClass name = true) :
    (e.apply c d).root.hasClass name = true := by
  cases e with
  | rootClass other => exact Element.hasClass_withClass_of_hasClass d.root other h
  | rootAttr other value =>
      have hne := Pass.ne_class_of_mem_rootAttrs he
      exact (Element.hasClass_withAttr_of_ne d.root other value hne).trans h
  | chrome cls e =>
      change (Pass.addChrome d cls e).root.hasClass name = true
      unfold Pass.addChrome
      split <;> exact h
  | eachLine p => exact h

/-- An attribute that is in place stays there. -/
theorem insertEntry_root_apply {name value : String} (hattr : (name, value) ∈ Pass.rootAttrs c)
    (he : e.Sound c) (h : insertEntry name value d.root.attrs = d.root.attrs) :
    insertEntry name value (e.apply c d).root.attrs = (e.apply c d).root.attrs := by
  cases e with
  | rootClass other =>
      change insertEntry name value (d.root.withClass other).attrs = (d.root.withClass other).attrs
      rcases Element.attrs_withClass d.root other with hsame | ⟨classes, hattrs⟩
      · rw [hsame, h]
      · rw [hattrs]
        exact insertEntry_of_ne (Pass.ne_class_of_mem_rootAttrs hattr).symm h classes
  | rootAttr other value' =>
      change insertEntry name value (insertEntry other value' d.root.attrs) = _
      by_cases hsame : other = name
      · subst hsame
        obtain rfl := Pass.rootAttrs_unique hattr he
        exact insertEntry_self other value d.root.attrs
      · exact insertEntry_of_ne hsame h value'
  | chrome cls e =>
      have hattrs : (Pass.addChrome d cls e).root.attrs = d.root.attrs := by
        unfold Pass.addChrome
        split <;> rfl
      change insertEntry name value (Pass.addChrome d cls e).root.attrs =
        (Pass.addChrome d cls e).root.attrs
      rw [hattrs, h]
  | eachLine p => exact h

end Edit

namespace Pass

theorem any_insertBeforeCode (p : Node → Bool) (e : Element) (nodes : List Node) :
    (insertBeforeCode e nodes).any p = (p e.toNode || nodes.any p) := by
  have hnodes : nodes.any p = ((nodes.takeWhile (!isCode ·)).any p ||
      (nodes.dropWhile (!isCode ·)).any p) := by
    rw [← List.any_append, List.takeWhile_append_dropWhile]
  rw [insertBeforeCode_eq, List.any_append, List.any_cons, hnodes, Bool.or_left_comm]

/-- An element with a class is beside the code after one with that class was put there. -/
theorem isSome_positionOfClass?_addChrome (d : Document) {cls : String} {e : Element}
    (he : e.hasClass cls = true) :
    ((addChrome d cls e).root.positionOfClass? cls).isSome = true := by
  unfold addChrome
  split
  · assumption
  · rw [Element.isSome_positionOfClass?]
    change (insertBeforeCode e d.root.children).any _ = true
    rw [any_insertBeforeCode]
    simp [he]

section

variable {c : PassContext} {i : Nat} {line : Element}

theorem onLine_of_isNumbered (h : isNumbered line = true) :
    lineNumbers.onLine c i line = line :=
  if_pos h

theorem onLine_of_not_isNumbered (h : ¬ isNumbered line = true) :
    lineNumbers.onLine c i line =
      { line with children := (numberSpan (c.config.startLine + i)).toNode :: line.children } :=
  if_neg h

/-- A line that a pass has been at is left alone by the same pass. -/
theorem onLine_onLine (p : Pass) : p.onLine c i (p.onLine c i line) = p.onLine c i line := by
  cases p with
  | highlight =>
      simp only [onLine]
      split
      · exact Element.withClass_withClass line (by decide +kernel)
      · rfl
  | lineNumbers =>
      by_cases hline : isNumbered line = true
      · rw [onLine_of_isNumbered hline, onLine_of_isNumbered hline]
      · rw [onLine_of_not_isNumbered hline]
        exact onLine_of_isNumbered (isNumbered_cons_numberSpan (c.config.startLine + i) line)
  | _ => rfl

/-- A mark is a class of the line and a number is one of its nodes. -/
theorem onLine_highlight_lineNumbers :
    highlight.onLine c i (lineNumbers.onLine c i line) =
      lineNumbers.onLine c i (highlight.onLine c i line) := by
  by_cases hmark : c.config.isHighlighted (i + 1) = true
  · have hmarked : ∀ e, highlight.onLine c i e = e.withClass highlightedClass := fun e =>
      if_pos hmark
    have hnumber := isNumbered_withClass line highlightedClass
    rw [hmarked, hmarked]
    by_cases hline : isNumbered line = true
    · rw [onLine_of_isNumbered hline, onLine_of_isNumbered (hnumber.trans hline)]
    · rw [onLine_of_not_isNumbered hline, onLine_of_not_isNumbered (by rwa [hnumber]),
        Element.children_withClass]
      exact Element.withClass_setChildren line _ _
  · have hplain : ∀ e, highlight.onLine c i e = e := fun e => if_neg hmark
    rw [hplain, hplain]

/-- No pass minds what another one has done to a line. -/
theorem onLine_comm (p q : Pass) :
    p.onLine c i (q.onLine c i line) = q.onLine c i (p.onLine c i line) := by
  cases p with
  | highlight =>
      cases q with
      | lineNumbers => exact onLine_highlight_lineNumbers
      | _ => rfl
  | lineNumbers =>
      cases q with
      | highlight => exact onLine_highlight_lineNumbers.symm
      | _ => rfl
  | _ => rfl

end

end Pass

namespace Edit

theorem lines_apply_eachLine (p : Pass) :
    ((eachLine p).apply c d).lines = d.lines.mapIdx (p.onLine c) :=
  lines_mapLines d fun i line h => Pass.hasClass_onLine i line h

/-- **An edit leaves nothing to do for itself.** -/
theorem done_apply (he : e.Sound c) (d : Document) : e.Done c (e.apply c d) := by
  cases e with
  | rootClass name =>
      change (d.root.withClass name).hasClass name = true
      have hname := Pass.contains_classesOf he
      rw [Element.hasClass_withClass, hname, Bool.and_true, Bool.or_not_self]
  | rootAttr name value => exact insertEntry_self name value d.root.attrs
  | chrome cls e => exact Pass.isSome_positionOfClass?_addChrome d he.1
  | eachLine p =>
      intro i line hline
      rw [lines_apply_eachLine, List.getElem?_mapIdx, Option.map_eq_some_iff] at hline
      obtain ⟨line, -, rfl⟩ := hline
      exact Pass.onLine_onLine p

/-- What is beside the code stays there. -/
theorem isSome_positionOfClass?_apply {cls : String}
    (h : (d.root.positionOfClass? cls).isSome = true) :
    ((e.apply c d).root.positionOfClass? cls).isSome = true := by
  rw [Element.isSome_positionOfClass?] at h ⊢
  cases e with
  | rootClass name =>
      change (d.root.withClass name).children.any _ = true
      rw [Element.children_withClass]
      exact h
  | rootAttr name value => exact h
  | chrome other e =>
      change (Pass.addChrome d other e).root.children.any _ = true
      unfold Pass.addChrome
      split
      · exact h
      · change (Pass.insertBeforeCode e d.root.children).any _ = true
        rw [Pass.any_insertBeforeCode, h, Bool.or_true]
  | eachLine p =>
      change (mapFirst "code" _ d.root.children).any _ = true
      rw [any_mapFirst]
      · exact h
      · intro e
        rfl

/-- Lines for which nothing is left to do. -/
theorem onLine_of_apply (he : e.Sound c) {p : Pass}
    (h : ∀ i line, d.lines[i]? = some line → p.onLine c i line = line) {i : Nat} {line : Element}
    (hline : (e.apply c d).lines[i]? = some line) : p.onLine c i line = line := by
  have hsame : (e.apply c d).lines = d.lines → p.onLine c i line = line := fun hlines =>
    h i line (hlines ▸ hline)
  cases e with
  | rootClass name => exact hsame (lines_mapRoot d (by simp))
  | rootAttr name value => exact hsame (lines_mapRoot d (by simp))
  | chrome cls e => exact hsame (Pass.lines_addChrome d cls he.2)
  | eachLine q =>
      rw [lines_apply_eachLine, List.getElem?_mapIdx, Option.map_eq_some_iff] at hline
      obtain ⟨line, hold, rfl⟩ := hline
      rw [Pass.onLine_comm, h i line hold]

/-- **What is done stays done**, whatever edit follows. -/
theorem Done.apply (h : e.Done c d) (he : e.Sound c) (he' : e'.Sound c) :
    e.Done c (e'.apply c d) := by
  cases e with
  | rootClass name => exact hasClass_root_apply he' h
  | rootAttr name value => exact insertEntry_root_apply he he' h
  | chrome cls e => exact isSome_positionOfClass?_apply h
  | eachLine p => exact fun i line hline => onLine_of_apply he' h hline

variable {edits : List Edit}

theorem Done.foldl (h : e.Done c d) (he : e.Sound c) (hedits : ∀ e' ∈ edits, e'.Sound c) :
    e.Done c (edits.foldl (Edit.apply c) d) := by
  induction edits generalizing d with
  | nil => exact h
  | cons e' rest ih =>
      exact ih (h.apply he (hedits e' List.mem_cons_self)) fun e'' he'' =>
        hedits e'' (List.mem_cons_of_mem e' he'')

/-- Behind a row of edits, nothing is left to do for any of them. -/
theorem done_foldl (hedits : ∀ e ∈ edits, e.Sound c) (he : e ∈ edits) (d : Document) :
    e.Done c (edits.foldl (Edit.apply c) d) := by
  obtain ⟨before, after, rfl⟩ := List.append_of_mem he
  rw [List.foldl_append, List.foldl_cons]
  exact (done_apply (hedits e he) _).foldl (hedits e he) fun e' he' => hedits e' (by simp [he'])

theorem foldl_of_done (h : ∀ e ∈ edits, e.Done c d) : edits.foldl (Edit.apply c) d = d := by
  induction edits with
  | nil => rfl
  | cons e rest ih =>
      rw [List.foldl_cons, apply_of_done (h e List.mem_cons_self)]
      exact ih fun e' he' => h e' (List.mem_cons_of_mem e he')

end Edit

namespace Pass

/-- A row of passes is the row of all their edits. -/
theorem applyAll_eq_foldl_edits (passes : List Pass) (c : PassContext) (d : Document) :
    applyAll passes c d = (passes.flatMap (edits c)).foldl (Edit.apply c) d := by
  induction passes generalizing d with
  | nil => rfl
  | cons p rest ih =>
      rw [List.flatMap_cons, List.foldl_append, ← apply_eq_foldl_edits]
      exact ih (p.apply c d)

theorem hasClass_titleBar (config : BlockConfig) (text : String) :
    (titleBar config text).hasClass "code-title" = true := by
  have hclass : (Element.mk "div" [("class", "code-title")] [.text text]).hasClass "code-title" =
      true := by
    change (Element.classesOf "code-title").contains "code-title" = true
    decide +kernel
  unfold titleBar
  split
  · exact (Element.hasClass_withAttr_of_ne _ _ _ (by decide)).trans hclass
  · exact hclass

theorem hasClass_languageTag (language : String) :
    (languageTag language).hasClass "language-label" = true := by
  change (Element.classesOf "language-label").contains "language-label" = true
  decide +kernel

theorem hasClass_copyTag : copyTag.hasClass "copy-button" = true := by
  decide +kernel

/-- **Every edit of a pass is sound.** -/
theorem sound_of_mem_edits (p : Pass) : ∀ e ∈ p.edits c, e.Sound c := by
  cases p with
  | highlight => simp [edits, Edit.Sound]
  | lineNumbers =>
      by_cases hstart : c.config.startLine = 1 <;>
        simp [edits, hstart, Edit.Sound, rootClasses, rootAttrs]
  | title =>
      cases htitle : c.config.displayTitle with
      | none => simp [edits, htitle]
      | some text =>
          simp [edits, htitle, Edit.Sound, rootClasses, rootAttrs, hasClass_titleBar,
            tag_titleBar]
  | languageLabel =>
      have htag : (languageTag c.language).tag = "span" := rfl
      simp [edits, Edit.Sound, rootAttrs, hasClass_languageTag, htag]
  | copyButton =>
      have htag : copyTag.tag = "button" := rfl
      simp [edits, Edit.Sound, rootAttrs, hasClass_copyTag, htag]
  | fold =>
      by_cases hfold : c.config.fold = true <;>
        simp [edits, hfold, Edit.Sound, rootClasses, rootAttrs]
  | wordWrap => simp [edits, Edit.Sound, rootClasses]
  | exclude => simp [edits, Edit.Sound, rootClasses, rootAttrs]

/-- What passes have done, none of them does again. -/
theorem apply_applyAll {p : Pass} {passes : List Pass} (hp : p ∈ passes) (d : Document) :
    p.apply c (applyAll passes c d) = applyAll passes c d := by
  have hsound : ∀ e ∈ passes.flatMap (edits c), e.Sound c := by
    intro e he
    obtain ⟨q, -, hq⟩ := List.mem_flatMap.mp he
    exact q.sound_of_mem_edits e hq
  rw [apply_eq_foldl_edits, applyAll_eq_foldl_edits]
  exact Edit.foldl_of_done fun e he =>
    Edit.done_foldl hsound (List.mem_flatMap.mpr ⟨p, hp, he⟩) d

/-- Passes that all have nothing to do. -/
theorem applyAll_of_forall {passes : List Pass} (h : ∀ p ∈ passes, p.apply c d = d) :
    applyAll passes c d = d := by
  induction passes with
  | nil => rfl
  | cons p rest ih =>
      have hrest := ih fun q hq => h q (List.mem_cons_of_mem p hq)
      change applyAll rest c (p.apply c d) = d
      rw [h p List.mem_cons_self, hrest]

/-- **Passes are idempotent.**  For any block, any context and any passes, in
whatever order and however often they come: applying them again changes
nothing; nor does it to apply one of them, so that none has undone another or
called for it again; and a pass by itself is idempotent. -/
theorem applyAll_again (passes : List Pass) (c : PassContext) (d : Document) :
    applyAll passes c (applyAll passes c d) = applyAll passes c d ∧
      (∀ p ∈ passes, p.apply c (applyAll passes c d) = applyAll passes c d) ∧
      ∀ p : Pass, p.apply c (p.apply c d) = p.apply c d := by
  have heach : ∀ p ∈ passes, p.apply c (applyAll passes c d) = applyAll passes c d :=
    fun p hp => apply_applyAll hp d
  exact ⟨applyAll_of_forall heach, heach, fun p =>
    apply_applyAll (List.mem_singleton.mpr rfl : p ∈ [p]) d⟩

end Pass

end CodeFence
