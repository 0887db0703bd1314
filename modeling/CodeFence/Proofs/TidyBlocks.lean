import CodeFence.Engine.Scripted
import CodeFence.Proofs.BlockMarkup
import CodeFence.Proofs.SourceText

/-!
# Rendered blocks are tidy

Both engines build a `pre` element of lines, and so does plain text.  A pass
changes classes and attributes, puts numbers into lines, or puts one more
element beside the `code` element; it never brings in a `pre` element, nor a
`div` but for the title bar.

* `Document.tidy_ofLines` — a block that is made of tidy lines is tidy;
* `Pass.tidy_applyAll` — no pass changes that;
* `Engine.Tidy` — the engines whose blocks are tidy, among them the bundled one
  and every scripted one;
* `Pipeline.vouches_tidy` — so every block that comes from such an engine is
  tidy.
-/

namespace CodeFence

namespace Markup

/-- An entry of a list of names is old, or it is the one that was put there. -/
theorem mem_insertEntry {α : Type} {name : String} {value : α} {entries : List (String × α)}
    {e : String × α} (h : e ∈ insertEntry name value entries) :
    e = (name, value) ∨ e ∈ entries := by
  fun_induction insertEntry name value entries with
  | case1 => exact Or.inl (List.mem_singleton.mp h)
  | case2 v rest =>
      rcases List.mem_cons.mp h with rfl | h
      · exact Or.inl rfl
      · exact Or.inr (List.mem_cons_of_mem _ h)
  | case3 n v rest _ _ =>
      rcases List.mem_cons.mp h with rfl | h
      · exact Or.inl rfl
      · exact Or.inr h
  | case4 n v rest _ _ ih =>
      rcases List.mem_cons.mp h with rfl | h
      · exact Or.inr List.mem_cons_self
      · exact (ih h).imp id (List.mem_cons_of_mem _)

theorem NamesPlain.insertEntry {attrs : List (String × String)} (h : NamesPlain attrs)
    {name : String} (hname : '<' ∉ name.toList) (value : String) :
    NamesPlain (insertEntry name value attrs) := by
  intro a ha
  rcases mem_insertEntry ha with rfl | ha
  · exact hname
  · exact h a ha

namespace Element

/-- Classes and attributes are set, and nothing else is changed. -/
structure Dresses (f : Element → Element) : Prop where
  tag : ∀ e, (f e).tag = e.tag
  attrs : ∀ e, NamesPlain e.attrs → NamesPlain (f e).attrs
  children : ∀ e, (f e).children = e.children

theorem dresses_withAttr {name : String} (hname : '<' ∉ name.toList) (value : String) :
    Dresses (·.withAttr name value) where
  tag _ := rfl
  attrs _ h := h.insertEntry hname value
  children _ := rfl

theorem dresses_withClass (name : String) : Dresses (·.withClass name) where
  tag e := e.tag_withClass name
  attrs e h := by
    have hset : ∀ value, NamesPlain (e.withAttr "class" value).attrs := fun value =>
      (dresses_withAttr (by decide) value).attrs e h
    unfold withClass
    split
    · exact h
    · split <;> exact hset _
  children e := e.children_withClass name

theorem Dresses.comp {f g : Element → Element} (hg : Dresses g) (hf : Dresses f) :
    Dresses fun e => g (f e) where
  tag e := (hg.tag _).trans (hf.tag e)
  attrs e h := hg.attrs _ (hf.attrs e h)
  children e := (hg.children _).trans (hf.children e)

end Element

theorem Node.tidy_toNode_iff {e : Element} :
    e.toNode.Tidy ↔ e.tag ∈ innerTags ∧ NamesPlain e.attrs ∧ ∀ n ∈ e.children, n.Tidy := by
  constructor
  · rintro ⟨⟩
    exact ⟨‹_›, ‹_›, ‹_›⟩
  · rintro ⟨htag, hattrs, hchildren⟩
    exact .element htag hattrs hchildren

/-- A tidy element that is dressed is tidy. -/
theorem Node.Tidy.dress {e : Element} (h : e.toNode.Tidy) {f : Element → Element}
    (hf : Element.Dresses f) : (f e).toNode.Tidy := by
  obtain ⟨htag, hattrs, hchildren⟩ := Node.tidy_toNode_iff.mp h
  refine Node.tidy_toNode_iff.mpr ⟨?_, hf.attrs e hattrs, ?_⟩
  · rwa [hf.tag]
  · rwa [hf.children]

/-- A line keeps tidy, and its nodes keep tidy, if what changes it does so. -/
theorem tidy_mapLineNodes {f : Nat → Element → Element}
    (hf : ∀ i e, e.toNode.Tidy → (f i e).toNode.Tidy) (i : Nat) {nodes : List Node}
    (h : ∀ n ∈ nodes, n.Tidy) : ∀ n ∈ mapLineNodes f i nodes, n.Tidy := by
  induction nodes generalizing i with
  | nil => exact h
  | cons n rest ih =>
      have hfirst := h n List.mem_cons_self
      have hrest := fun j => ih j fun m hm => h m (List.mem_cons_of_mem n hm)
      unfold mapLineNodes
      split
      · rename_i e he
        rw [Node.eq_of_element? he] at hfirst
        split
        · exact List.forall_mem_cons.mpr ⟨hf i e hfirst, hrest (i + 1)⟩
        · rw [Node.eq_of_element? he]
          exact List.forall_mem_cons.mpr ⟨hfirst, hrest i⟩
      · exact List.forall_mem_cons.mpr ⟨hfirst, hrest i⟩

theorem mem_intersperse {α : Type} {separator a : α} {as : List α}
    (h : a ∈ as.intersperse separator) : a = separator ∨ a ∈ as := by
  induction as with
  | nil => cases h
  | cons b rest ih =>
      cases rest with
      | nil => exact Or.inr h
      | cons c rest =>
          rw [List.intersperse_cons_cons] at h
          rcases List.mem_cons.mp h with rfl | h
          · exact Or.inr List.mem_cons_self
          · rcases List.mem_cons.mp h with rfl | h
            · exact Or.inl rfl
            · exact (ih h).imp id (List.mem_cons_of_mem _)

theorem mem_insertBeforeCode {e : Element} {n : Node} {nodes : List Node}
    (h : n ∈ Pass.insertBeforeCode e nodes) : n = e.toNode ∨ n ∈ nodes := by
  rw [Pass.insertBeforeCode_eq, List.mem_append, List.mem_cons] at h
  rcases h with h | rfl | h
  · exact Or.inr ((List.takeWhile_sublist _).subset h)
  · exact Or.inl rfl
  · exact Or.inr ((List.dropWhile_sublist _).subset h)

/-- The first element with a tag is changed, and no other. -/
theorem mem_mapFirst {tag : String} {f : Element → Element} {n : Node} {nodes : List Node}
    (h : n ∈ mapFirst tag f nodes) :
    n ∈ nodes ∨ ∃ e, e.tag = tag ∧ e.toNode ∈ nodes ∧ n = (f e).toNode := by
  induction nodes with
  | nil => exact Or.inl h
  | cons m rest ih =>
      have hrest : n ∈ m :: mapFirst tag f rest →
          n ∈ m :: rest ∨ ∃ e, e.tag = tag ∧ e.toNode ∈ m :: rest ∧ n = (f e).toNode := by
        intro h
        rcases List.mem_cons.mp h with rfl | h
        · exact Or.inl List.mem_cons_self
        · rcases ih h with h | ⟨e, htag, he, rfl⟩
          · exact Or.inl (List.mem_cons_of_mem _ h)
          · exact Or.inr ⟨e, htag, List.mem_cons_of_mem _ he, rfl⟩
      unfold mapFirst at h
      split at h
      · rename_i e he
        split at h
        · rename_i htag
          rcases List.mem_cons.mp h with rfl | h
          · exact Or.inr ⟨e, htag, by rw [Node.eq_of_element? he]; exact List.mem_cons_self, rfl⟩
          · exact Or.inl (List.mem_cons_of_mem _ h)
        · exact hrest h
      · exact hrest h

namespace Document

variable {d : Document}

/-- **A new block** of tidy lines is tidy. -/
theorem tidy_ofLines {pre : Element} (htag : pre.tag = "pre") (hattrs : NamesPlain pre.attrs)
    (hchildren : pre.children = []) {lines : List Element}
    (hlines : ∀ e ∈ lines, e.toNode.Tidy) : (ofLines pre lines).Tidy := by
  refine ⟨htag, hattrs, ?_⟩
  intro n hn
  change n ∈ pre.children ++ [_] at hn
  rw [hchildren, List.nil_append, List.mem_singleton] at hn
  rw [hn]
  have hcode : "code" ∈ innerTags := by decide
  refine Or.inl (.element hcode (by intro a ha; cases ha) ?_)
  intro m hm
  rcases mem_intersperse hm with rfl | hm
  · exact .text _
  · obtain ⟨e, he, rfl⟩ := List.mem_map.mp hm
    exact hlines e he

/-- Changing lines in place keeps a block tidy. -/
theorem Tidy.mapLines (h : d.Tidy) {f : Nat → Element → Element}
    (hf : ∀ i e, e.toNode.Tidy → (f i e).toNode.Tidy) : (d.mapLines f).Tidy := by
  refine ⟨h.tag, h.attrs, ?_⟩
  intro n hn
  rcases mem_mapFirst hn with hn | ⟨e, htag, he, rfl⟩
  · exact h.children n hn
  · rcases h.children _ he with htidy | ⟨attrs, text, -, htitle⟩
    · obtain ⟨-, hattrs, hchildren⟩ := Node.tidy_toNode_iff.mp htidy
      refine Or.inl (Node.tidy_toNode_iff.mpr ⟨?_, hattrs, tidy_mapLineNodes hf 0 hchildren⟩)
      exact htag ▸ by decide
    · injection htitle with hdiv
      rw [hdiv] at htag
      exact absurd htag (by decide)

/-- Dressing the root keeps a block tidy. -/
theorem Tidy.mapRoot (h : d.Tidy) {f : Element → Element} (hf : Element.Dresses f) :
    (d.mapRoot f).Tidy := by
  refine ⟨(hf.tag _).trans h.tag, hf.attrs _ h.attrs, ?_⟩
  change ∀ n ∈ (f d.root).children, _
  rw [hf.children]
  exact h.children

/-- What is put beside the `code` element is tidy or a title bar. -/
theorem Tidy.addChrome (h : d.Tidy) (cls : String) {e : Element}
    (he : e.toNode.Tidy ∨ e.toNode.IsTitle) : (Pass.addChrome d cls e).Tidy := by
  unfold Pass.addChrome
  split
  · exact h
  · refine ⟨h.tag, h.attrs, ?_⟩
    intro n hn
    rcases mem_insertBeforeCode hn with rfl | hn
    · exact he
    · exact h.children n hn

end Document

end Markup

namespace Pass

open Markup

theorem tidy_numberSpan (n : Nat) : (numberSpan n).toNode.Tidy := by
  have hspan : "span" ∈ innerTags := by decide
  refine .element hspan ?_ ?_
  · rintro a (_ | ⟨_, _ | ⟨_, ha⟩⟩)
    · decide
    · change '<' ∉ "data-line".toList
      decide
    · cases ha
  · intro m hm
    obtain rfl := List.mem_singleton.mp hm
    exact .text _

theorem isTitle_titleBar (config : BlockConfig) (text : String) :
    (titleBar config text).toNode.IsTitle := by
  unfold titleBar
  split
  · rename_i file _ _
    refine ⟨[("data-filename", file)], text, ?_, ?_⟩
    · intro a ha
      obtain rfl := List.mem_singleton.mp ha
      change '<' ∉ "data-filename".toList
      decide
    · have hentry : insertEntry "data-filename" file [("class", "code-title")] =
          [("class", "code-title"), ("data-filename", file)] := by
        rw [insertEntry, if_neg (by decide), if_neg (by decide), insertEntry]
      change Node.element "div" (insertEntry _ _ _) [.text text] = _
      rw [hentry]
  · exact ⟨[], text, (by intro a ha; cases ha), rfl⟩

/-- A label or button of one text is tidy. -/
theorem tidy_leaf {tag : String} {attrs : List (String × String)} (text : String)
    (htag : tag ∈ innerTags) (hattrs : ∀ a ∈ attrs, '<' ∉ a.1.toList) :
    (Element.mk tag attrs [.text text]).toNode.Tidy := by
  refine .element htag hattrs ?_
  intro m hm
  obtain rfl := List.mem_singleton.mp hm
  exact .text _

/-- **No pass makes a block untidy.** -/
theorem tidy_apply (p : Pass) (c : PassContext) {d : Document} (h : d.Tidy) :
    (p.apply c d).Tidy := by
  cases p with
  | highlight =>
      refine h.mapLines fun i e he => ?_
      split
      · exact he.dress (Element.dresses_withClass _)
      · exact he
  | lineNumbers =>
      refine Document.Tidy.mapLines (h.mapRoot ?_) fun i e he => ?_
      · by_cases hstart : c.config.startLine = 1
        · simp only [if_pos hstart]
          exact Element.dresses_withClass _
        · simp only [if_neg hstart]
          exact (Element.dresses_withAttr (by decide) _).comp (Element.dresses_withClass _)
      · split
        · exact he
        · obtain ⟨htag, hattrs, hchildren⟩ := Node.tidy_toNode_iff.mp he
          exact .element htag hattrs
            (List.forall_mem_cons.mpr ⟨tidy_numberSpan _, hchildren⟩)
  | title =>
      change (addTitle c.config d).Tidy
      unfold addTitle
      split
      · exact h
      · exact (h.mapRoot ((Element.dresses_withAttr (by decide) _).comp
          (Element.dresses_withClass _))).addChrome _ (Or.inr (isTitle_titleBar _ _))
  | languageLabel =>
      refine (h.mapRoot (Element.dresses_withAttr (by decide) _)).addChrome _ (Or.inl ?_)
      exact tidy_leaf _ (by decide) (by decide)
  | copyButton =>
      refine (h.mapRoot (Element.dresses_withAttr (by decide) _)).addChrome _ (Or.inl ?_)
      exact tidy_leaf _ (by decide) (by decide)
  | fold =>
      change (makeFoldable c.config.fold d).Tidy
      unfold makeFoldable
      refine h.mapRoot ?_
      cases c.config.fold
      · exact (Element.dresses_withAttr (by decide) _).comp (Element.dresses_withClass _)
      · exact ((Element.dresses_withAttr (by decide) _).comp (Element.dresses_withClass _)).comp
          (Element.dresses_withClass _)
  | wordWrap => exact h.mapRoot (Element.dresses_withClass _)
  | exclude =>
      exact h.mapRoot ((Element.dresses_withAttr (by decide) _).comp (Element.dresses_withClass _))

theorem tidy_applyAll (passes : List Pass) (c : PassContext) {d : Document} (h : d.Tidy) :
    (applyAll passes c d).Tidy := by
  induction passes generalizing d with
  | nil => exact h
  | cons p rest ih => exact ih (tidy_apply p c h)

end Pass

namespace Markup

/-- An element of one class is dressed plainly. -/
theorem namesPlain_class (value : String) : NamesPlain [("class", value)] := by
  intro a ha
  obtain rfl := List.mem_singleton.mp ha
  change '<' ∉ "class".toList
  decide

/-- A line is tidy if what it holds is. -/
theorem tidy_line {nodes : List Node} (h : ∀ n ∈ nodes, n.Tidy) :
    (Element.mk "span" [("class", lineClass)] nodes).toNode.Tidy := by
  have hspan : "span" ∈ innerTags := by decide
  exact .element hspan (namesPlain_class _) h

theorem forall_tidy_text (value : String) : ∀ n ∈ [Node.text value], n.Tidy := by
  intro n hn
  obtain rfl := List.mem_singleton.mp hn
  exact .text value

/-- **Plain text** is tidy. -/
theorem tidy_plain (code : String) : (Document.plain code).Tidy := by
  refine Document.tidy_ofLines rfl (namesPlain_class _) rfl ?_
  intro e he
  obtain ⟨line, -, rfl⟩ := List.mem_map.mp he
  unfold Document.plainLine
  dsimp only
  split
  · exact tidy_line fun n hn => by cases hn
  · exact tidy_line (forall_tidy_text _)

end Markup

/-- An engine all of whose blocks are tidy. -/
def Engine.Tidy {σ : Type} (engine : Engine σ) : Prop :=
  ∀ code language theme state d, (engine.render code language theme state).1 = .ok d → d.Tidy

namespace Bundled

open Markup

theorem tidy_appendText {nodes : List Node} (h : ∀ n ∈ nodes, n.Tidy) (piece : String) :
    ∀ n ∈ appendText piece nodes, n.Tidy := by
  fun_induction appendText piece nodes with
  | case1 => exact forall_tidy_text _
  | case2 => exact forall_tidy_text _
  | case3 n rest _ ih =>
      obtain ⟨hfirst, hrest⟩ := List.forall_mem_cons.mp h
      exact List.forall_mem_cons.mpr ⟨hfirst, ih hrest⟩

/-- A piece of a line keeps the line tidy, whatever its color. -/
theorem tidy_appendPiece {nodes : List Node} (h : ∀ n ∈ nodes, n.Tidy) (piece : String)
    (color : Option Color) : ∀ n ∈ appendPiece nodes piece color, n.Tidy := by
  cases color with
  | none => exact tidy_appendText h piece
  | some color =>
      intro n hn
      rcases List.mem_append.mp hn with hn | hn
      · exact h n hn
      · obtain rfl := List.mem_singleton.mp hn
        refine .element (by decide) ?_ (forall_tidy_text piece)
        intro a ha
        obtain rfl := List.mem_singleton.mp ha
        change '<' ∉ "style".toList
        decide

theorem tidy_pieceNodes {theme : Theme} {line : List Char} {nodes : List Node}
    (h : ∀ n ∈ nodes, n.Tidy) (spans : List Syntax.Segment) :
    ∀ n ∈ pieceNodes theme line nodes spans, n.Tidy := by
  induction spans generalizing nodes with
  | nil => exact h
  | cons s rest ih => exact ih (tidy_appendPiece h _ _)

theorem tidy_renderLine (theme : Theme) (tokens : List Syntax.Token) (line : List Char) :
    (renderLine theme tokens line).toNode.Tidy :=
  tidy_line (tidy_pieceNodes (fun n hn => by cases hn) (Syntax.segments tokens line.length))

/-- **A colored block** is tidy. -/
theorem tidy_renderDocument (code : String) (highlights : Syntax.Highlights) (theme : Theme) :
    (renderDocument code highlights theme).Tidy := by
  have hdress : Element.Dresses fun e => (((e.withClass "fencelight").withClass theme.id).withAttr
      "data-theme" theme.id).withAttr "style" (themeStyle theme) :=
    (Element.dresses_withAttr (by decide) _).comp ((Element.dresses_withAttr (by decide) _).comp
      ((Element.dresses_withClass _).comp (Element.dresses_withClass _)))
  refine Document.tidy_ofLines (hdress.tag { tag := "pre" }) (hdress.attrs { tag := "pre" } ?_)
    (hdress.children { tag := "pre" }) ?_
  · intro a ha
    cases ha
  · intro e he
    obtain ⟨i, hi, rfl⟩ := List.mem_mapIdx.mp he
    exact tidy_renderLine _ _ _

theorem tidy_engineWith (analyse : Syntax.Analysis) (around : Surroundings) :
    (engineWith analyse around).Tidy := by
  intro code language theme b d h
  obtain ⟨highlights, t, rfl⟩ := exists_renderDocument h
  exact tidy_renderDocument code highlights t

end Bundled

namespace Script

open Markup

theorem tidy_document (code language theme : String) : (document code language theme).Tidy := by
  refine Document.tidy_ofLines rfl ?_ rfl ?_
  · rintro a (_ | ⟨_, _ | ⟨_, _ | ⟨_, ha⟩⟩⟩)
    · change '<' ∉ "class".toList
      decide
    · change '<' ∉ "data-engine-language".toList
      decide
    · change '<' ∉ "data-theme".toList
      decide
    · cases ha
  · intro e he
    obtain ⟨line, -, rfl⟩ := List.mem_map.mp he
    exact tidy_line (forall_tidy_text _)

theorem tidy_engine (s : Script) : s.engine.Tidy := by
  intro code language theme loaded d h
  change (if !loaded.contains theme then _ else _ : Except EngineError Document) = .ok d at h
  split at h
  · cases h
  · split at h
    · cases h
    · split at h
      · cases h
      · cases h
        exact tidy_document _ _ _

end Script

namespace Pipeline

open Markup

variable {σ : Type} {engine : Engine σ}

theorem vouches_tidy (h : engine.Tidy) : Vouches engine fun d _ => d.Tidy where
  rendered := h
  plain := tidy_plain

end Pipeline

end CodeFence
