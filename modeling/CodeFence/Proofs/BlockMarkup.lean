import CodeFence.Page.Wrapper
import CodeFence.Proofs.InlineTransparency
import CodeFence.Proofs.TextCuts

/-!
# The markup of a block

A wrapper ends where a `pre` element and a wrapper end together, and it begins
with a `div` of a class of its own.  Neither can be found inside a rendered
block: text and attribute values are escaped, there is one `pre` element, and
the only `div` that a pass puts into it is the title bar.

* `Document.Tidy` — how rendered blocks are built;
* `Document.Tidy.cutAround?_closing` — the first end of a wrapper behind a block
  is the one that follows the block;
* `Document.Tidy.avoids_mark` — no wrapper begins in a block.
-/

namespace CodeFence

namespace Wrapper

/-- What every wrapper begins with, and nothing else. -/
def mark : List Char :=
  "<div class=\"fencelight-block\"".toList

end Wrapper

namespace Markup

open Text

/-- The names of attributes open no element. -/
def NamesPlain (attrs : List (String × String)) : Prop :=
  ∀ a ∈ attrs, '<' ∉ a.1.toList

/-- The tags of the elements that may stand anywhere inside a block. -/
def innerTags : List String := ["code", "span", "button"]

/-- A node that may stand anywhere inside a block. -/
inductive Node.Tidy : Node → Prop
  | text (value : String) : Tidy (.text value)
  | element {tag : String} {attrs : List (String × String)} {children : List Node}
      (htag : tag ∈ innerTags) (hattrs : NamesPlain attrs)
      (hchildren : ∀ n ∈ children, n.Tidy) : Tidy (.element tag attrs children)

/-- A title bar. -/
def Node.IsTitle (n : Node) : Prop :=
  ∃ attrs text, NamesPlain attrs ∧
    n = .element "div" (("class", "code-title") :: attrs) [.text text]

/-- A `pre` element that holds tidy nodes and title bars. -/
structure Document.Tidy (d : Document) : Prop where
  tag : d.root.tag = "pre"
  attrs : NamesPlain d.root.attrs
  children : ∀ n ∈ d.root.children, n.Tidy ∨ n.IsTitle

/-! ## The written form -/

/-- A bracket that is in no name is in no attribute. -/
theorem bracket_not_mem_attrsToHtml {c : Char} (hc : c ∈ ['<', '>'])
    {attrs : List (String × String)} (h : ∀ a ∈ attrs, c ∉ a.1.toList) :
    c ∉ (attrsToHtml attrs).toList := by
  have hdelimiter : c ∈ delimiters := by
    have hall : ∀ c ∈ ['<', '>'], c ∈ delimiters := by simp [delimiters]
    exact hall c hc
  have hvalue : ∀ s, c ∉ (escape s).toList := delimiter_not_mem_escape hdelimiter
  have hmarks : ∀ c ∈ ['<', '>'], c ∉ " ".toList ∧ c ∉ "=\"".toList ∧ c ∉ "\"".toList := by
    simp
  obtain ⟨hspace, hopen, hclose⟩ := hmarks c hc
  induction attrs with
  | nil => simp [attrsToHtml]
  | cons a attrs ih =>
      obtain ⟨name, value⟩ := a
      have hname : c ∉ name.toList := h (name, value) List.mem_cons_self
      have hrest := ih fun b hb => h b (List.mem_cons_of_mem _ hb)
      simp only [attrsToHtml, String.toList_append, List.mem_append, not_or]
      exact ⟨⟨⟨⟨⟨hspace, hname⟩, hopen⟩, hvalue value⟩, hclose⟩, hrest⟩

theorem lt_not_mem_attrsToHtml {attrs : List (String × String)} (h : NamesPlain attrs) :
    '<' ∉ (attrsToHtml attrs).toList :=
  bracket_not_mem_attrsToHtml (by decide) h

theorem toList_toHtml_element (tag : String) (attrs : List (String × String))
    (children : List Node) :
    (Node.element tag attrs children).toHtml.toList =
      ('<' :: (tag.toList ++ (attrsToHtml attrs).toList ++ ['>'])) ++
        (nodesToHtml children).toList ++ ('<' :: '/' :: (tag.toList ++ ['>'])) := by
  simp [Node.toHtml]

/-- An opening or closing tag holds one bracket, so only what follows that
bracket matters. -/
theorem avoids_tag {needle cs : List Char} (hcs : '<' ∉ cs)
    (hne : ∀ after, after? needle (cs ++ after) = none) : Avoids ('<' :: needle) ('<' :: cs) := by
  refine ⟨?_, avoids_of_not_mem hcs⟩
  intro after
  simpa [after?] using hne after

theorem avoids_nodesToHtml {needle : List Char} {nodes : List Node}
    (h : ∀ n ∈ nodes, Avoids needle n.toHtml.toList) :
    Avoids needle (nodesToHtml nodes).toList := by
  induction nodes with
  | nil => trivial
  | cons n rest ih =>
      have hfirst := h n List.mem_cons_self
      have hrest := ih fun m hm => h m (List.mem_cons_of_mem _ hm)
      rw [nodesToHtml, String.toList_append]
      exact hfirst.append hrest

/-- A text that begins with a bracket and goes on like no tag that may stand
inside a block does not begin in there. -/
theorem Node.Tidy.avoids {needle : List Char} {n : Node} (h : n.Tidy)
    (hopen : ∀ tag ∈ innerTags, ∀ after, after? needle (tag.toList ++ after) = none)
    (hclose : ∀ tag ∈ innerTags, ∀ after,
      after? needle ('/' :: (tag.toList ++ '>' :: after)) = none) :
    Avoids ('<' :: needle) n.toHtml.toList := by
  have hplain : ∀ tag ∈ innerTags, '<' ∉ tag.toList := by decide
  induction h with
  | text value => exact avoids_of_not_mem (lt_not_mem_escape value)
  | @element tag attrs children htag hattrs hchildren ih =>
      have hnames := lt_not_mem_attrsToHtml hattrs
      have hinner := avoids_nodesToHtml ih
      rw [toList_toHtml_element]
      refine ((avoids_tag ?_ ?_).append hinner).append (avoids_tag ?_ ?_)
      · simp [hnames, hplain tag htag]
      · intro after
        simpa using hopen tag htag _
      · simp [hplain tag htag]
      · intro after
        simpa using hclose tag htag after

/-- **Inside a block** no wrapper ends. -/
theorem Node.Tidy.avoids_closing {n : Node} (h : n.Tidy) :
    Avoids Wrapper.closing n.toHtml.toList := by
  refine @Node.Tidy.avoids "/pre></div>".toList n h ?_ ?_
  all_goals
    simp only [innerTags, List.mem_cons, List.not_mem_nil, or_false]
    rintro tag (rfl | rfl | rfl) after <;> rfl

/-- **Inside a block** no wrapper begins. -/
theorem Node.Tidy.avoids_mark {n : Node} (h : n.Tidy) :
    Avoids Wrapper.mark n.toHtml.toList := by
  refine @Node.Tidy.avoids "div class=\"fencelight-block\"".toList n h ?_ ?_
  all_goals
    simp only [innerTags, List.mem_cons, List.not_mem_nil, or_false]
    rintro tag (rfl | rfl | rfl) after <;> rfl

/-- A title bar is no wrapper, and no wrapper ends in it. -/
theorem Node.IsTitle.avoids {n : Node} (h : n.IsTitle) :
    Avoids Wrapper.closing n.toHtml.toList ∧ Avoids Wrapper.mark n.toHtml.toList := by
  obtain ⟨attrs, text, hattrs, rfl⟩ := h
  have htext : '<' ∉ (nodesToHtml [.text text]).toList := by
    simp [nodesToHtml, Node.toHtml, lt_not_mem_escape]
  have hnames : '<' ∉ (attrsToHtml (("class", "code-title") :: attrs)).toList := by
    refine lt_not_mem_attrsToHtml ?_
    rintro a (_ | ⟨_, ha⟩)
    · decide
    · exact hattrs a ha
  have hvalue : escape "code-title" = "code-title" := by decide
  rw [toList_toHtml_element]
  constructor
  · refine ((avoids_tag ?_ ?_).append (avoids_of_not_mem htext)).append (avoids_tag ?_ ?_)
    · simp [hnames]
    · exact fun _ => rfl
    · decide
    · exact fun _ => rfl
  · refine ((avoids_tag ?_ ?_).append (avoids_of_not_mem htext)).append (avoids_tag ?_ ?_)
    · simp [hnames]
    · intro after
      simp only [attrsToHtml, hvalue, String.toList_append, List.append_assoc]
      rfl
    · decide
    · exact fun _ => rfl

namespace Document

/-- The written form of a tidy block, without its last closing tag. -/
theorem Tidy.toHtml_eq {d : Document} (h : d.Tidy) :
    ∃ body, d.toHtml.toList = body ++ "</pre>".toList ∧ Avoids Wrapper.closing body ∧
      Avoids Wrapper.mark d.toHtml.toList := by
  have hnames := lt_not_mem_attrsToHtml h.attrs
  have hclosing := avoids_nodesToHtml fun n hn =>
    (h.children n hn).elim Node.Tidy.avoids_closing fun ht => ht.avoids.1
  have hmark := avoids_nodesToHtml fun n hn =>
    (h.children n hn).elim Node.Tidy.avoids_mark fun ht => ht.avoids.2
  have hhtml : d.toHtml.toList = ('<' :: ("pre".toList ++ (attrsToHtml d.root.attrs).toList ++
      ['>'])) ++ (nodesToHtml d.root.children).toList ++ "</pre>".toList := by
    have helement : d.toHtml = (Node.element "pre" d.root.attrs d.root.children).toHtml := by
      rw [← h.tag]
      rfl
    have hend : "</pre>".toList = '<' :: '/' :: ("pre".toList ++ ['>']) := rfl
    rw [helement, toList_toHtml_element, hend]
  refine ⟨_, hhtml, (avoids_tag ?_ fun _ => rfl).append hclosing, ?_⟩
  · simp [hnames]
  · rw [hhtml]
    refine ((avoids_tag ?_ fun _ => rfl).append hmark).append (avoids_tag (by decide) fun _ => rfl)
    simp [hnames]

/-- **The end of a wrapper.**  The first one behind a block is the one that
follows the block. -/
theorem Tidy.cutAround?_closing {d : Document} (h : d.Tidy) (rest : List Char) :
    ∃ body, Text.cutAround? Wrapper.closing (d.toHtml.toList ++ "</div>".toList ++ rest) =
      some (body, rest) := by
  obtain ⟨body, hhtml, havoids, -⟩ := h.toHtml_eq
  have hend : "</pre>".toList ++ "</div>".toList = Wrapper.closing := rfl
  refine ⟨body, ?_⟩
  rw [hhtml, List.append_assoc body, hend]
  exact cutAround?_of_avoids havoids (by decide) rest

/-- No wrapper begins in a block. -/
theorem Tidy.avoids_mark {d : Document} (h : d.Tidy) :
    Avoids Wrapper.mark d.toHtml.toList := by
  obtain ⟨_, -, -, hmark⟩ := h.toHtml_eq
  exact hmark

end Document

end Markup

end CodeFence
