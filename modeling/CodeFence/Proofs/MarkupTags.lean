import CodeFence.Proofs.BlockMarkup

/-!
# Tags and text

Markup is read without knowing any tags: whatever stands between a `<` and the
next `>` is one, and the rest is text.  Of the markup of a tree this gives back
the tags of its elements and the text in them, so nothing that stands in a text
or in an attribute value can open a tag, end it or change it.

* `cutTags` — the tags of a text, and what is left of it without them;
* `Cuts` — markup that is cut alike in front of any other;
* `Node.Named.cuts` — the markup of a node is cut into its tags and its text;
* `cutTags_toHtml` — the text of an element is what is left of its markup.
-/

namespace CodeFence.Markup

open Text

/-- The tags of a text, each without its brackets, and what is left of the text
when they are deleted.  A tag goes from a `<` to the next `>`. -/
def cutTags (cs : List Char) : List (List Char) × List Char :=
  match cs with
  | [] => ([], [])
  | c :: rest =>
    if c = '<' then
      match _h : cutAt? '>' rest with
      | some (tag, behind) => (tag :: (cutTags behind).1, (cutTags behind).2)
      | none => ([], c :: rest)
    else ((cutTags rest).1, c :: (cutTags rest).2)
termination_by cs.length
decreasing_by
  all_goals simp_wf
  have hlength := congrArg List.length (cutAt?_eq _h)
  simp only [List.length_append, List.length_cons] at hlength
  omega

/-- Markup with certain tags and a certain text, whatever follows it. -/
def Cuts (markup : List Char) (tags : List (List Char)) (text : List Char) : Prop :=
  ∀ rest, cutTags (markup ++ rest) = (tags ++ (cutTags rest).1, text ++ (cutTags rest).2)

theorem cuts_nil : Cuts [] [] [] := fun _ => rfl

theorem Cuts.append {front back : List Char} {tags more : List (List Char)}
    {text others : List Char} (h : Cuts front tags text) (h' : Cuts back more others) :
    Cuts (front ++ back) (tags ++ more) (text ++ others) := by
  intro rest
  rw [List.append_assoc, h, h', List.append_assoc, List.append_assoc]

/-- A text without a bracket holds no tag. -/
theorem cuts_text {text : List Char} (h : '<' ∉ text) : Cuts text [] text := by
  intro rest
  induction text with
  | nil => rfl
  | cons c cs ih =>
      rw [List.mem_cons, not_or] at h
      rw [List.cons_append, cutTags, if_neg (Ne.symm h.1), ih h.2]
      rfl

/-- A tag ends at the first bracket that ends any. -/
theorem cuts_tag {tag : List Char} (h : '>' ∉ tag) : Cuts ('<' :: (tag ++ ['>'])) [tag] [] := by
  intro rest
  have hshape : '<' :: (tag ++ ['>']) ++ rest = '<' :: (tag ++ '>' :: rest) := by simp
  have hcut := cutAt?_append h rest
  rw [hshape, cutTags, if_pos rfl]
  split
  · rename_i found behind hfound
    obtain ⟨rfl, rfl⟩ : tag = found ∧ rest = behind := by simpa [hcut] using hfound
    rfl
  · rename_i hnone
    rw [hcut] at hnone
    cases hnone

/-! ## Trees -/

/-- Names of tags and attributes that end no tag.  An opening bracket in them does
no harm. -/
inductive Node.Named : Node → Prop
  | text (value : String) : Named (.text value)
  | element {tag : String} {attrs : List (String × String)} {children : List Node}
      (htag : '>' ∉ tag.toList) (hattrs : ∀ a ∈ attrs, '>' ∉ a.1.toList)
      (hchildren : ∀ n ∈ children, n.Named) : Named (.element tag attrs children)

mutual

/-- The tags of a node, each without its brackets, in order. -/
def Node.tags : Node → List (List Char)
  | .text _ => []
  | .element tag attrs children =>
    (tag.toList ++ (attrsToHtml attrs).toList) :: tagsOfNodes children ++ ['/' :: tag.toList]

/-- The tags of nodes in a row. -/
def tagsOfNodes : List Node → List (List Char)
  | [] => []
  | n :: rest => n.tags ++ tagsOfNodes rest

end

/-- Nodes in a row are cut one after the other. -/
theorem cuts_nodesToHtml {nodes : List Node}
    (h : ∀ n ∈ nodes, Cuts n.toHtml.toList n.tags (escapeChars n.textContent.toList)) :
    Cuts (nodesToHtml nodes).toList (tagsOfNodes nodes)
      (escapeChars (textOfNodes nodes).toList) := by
  induction nodes with
  | nil => exact cuts_nil
  | cons n rest ih =>
      have hfirst := h n List.mem_cons_self
      have hrest := ih fun m hm => h m (List.mem_cons_of_mem n hm)
      rw [nodesToHtml, String.toList_append, tagsOfNodes, textOfNodes, String.toList_append,
        escapeChars, List.flatMap_append]
      exact hfirst.append hrest

/-- **A node is cut** into its tags and its text. -/
theorem Node.Named.cuts {n : Node} (h : n.Named) :
    Cuts n.toHtml.toList n.tags (escapeChars n.textContent.toList) := by
  induction h with
  | text value =>
      rw [Node.toHtml, escape, String.toList_ofList]
      exact cuts_text (delimiter_not_mem_escapeChars (by decide) value.toList)
  | @element tag attrs children htag hattrs hchildren ih =>
      have hopen : '>' ∉ tag.toList ++ (attrsToHtml attrs).toList := by
        have hvalues : '>' ∉ (attrsToHtml attrs).toList :=
          bracket_not_mem_attrsToHtml (by decide) hattrs
        simp [htag, hvalues]
      have hclose : '>' ∉ '/' :: tag.toList := by simp [htag]
      have hcut := ((cuts_tag hopen).append (cuts_nodesToHtml ih)).append (cuts_tag hclose)
      rw [toList_toHtml_element]
      simpa [Node.tags, Node.textContent] using hcut

/-- Cut at its quotes, a tag is names and values by turns, if there is no quote in
the names. -/
theorem splitAt_attrsToHtml {attrs : List (String × String)}
    (h : ∀ a ∈ attrs, '"' ∉ a.1.toList) :
    splitAt '"' (attrsToHtml attrs).toList =
      attrs.flatMap (fun a => [' ' :: (a.1.toList ++ ['=']), escapeChars a.2.toList]) ++ [[]] := by
  induction attrs with
  | nil => rfl
  | cons a attrs ih =>
      obtain ⟨name, value⟩ := a
      have hname : '"' ∉ ' ' :: (name.toList ++ ['=']) := by
        have := h (name, value) List.mem_cons_self
        simpa using this
      have hvalue : '"' ∉ escapeChars value.toList :=
        delimiter_not_mem_escapeChars (by decide) value.toList
      have hshape : (attrsToHtml ((name, value) :: attrs)).toList =
          (' ' :: (name.toList ++ ['='])) ++ '"' :: (escapeChars value.toList ++
            '"' :: (attrsToHtml attrs).toList) := by
        simp [attrsToHtml, escape]
      rw [hshape, splitAt_append_sep, splitAt_append_sep, splitAt_of_not_mem hname,
        splitAt_of_not_mem hvalue, ih fun b hb => h b (List.mem_cons_of_mem _ hb)]
      rfl

/-- **What is left without tags.**  In the markup of an element whose names end no
tag, the tags are those of the elements in it and the rest is their text,
escaped; so decoding the rest gives the text back.  A tag holds its attributes
between quotes, each of them escaped. -/
theorem cutTags_toHtml {e : Element} (h : e.toNode.Named) :
    unescape (String.ofList (cutTags e.toHtml.toList).2) = e.textContent ∧
    cutTags e.toHtml.toList = (e.toNode.tags, escapeChars e.textContent.toList) ∧
    ∀ attrs : List (String × String), (∀ a ∈ attrs, '"' ∉ a.1.toList) →
      splitAt '"' (attrsToHtml attrs).toList =
        attrs.flatMap (fun a => [' ' :: (a.1.toList ++ ['=']), escapeChars a.2.toList]) ++
          [[]] := by
  have hcut := h.cuts []
  have hend : cutTags [] = ([], []) := by rw [cutTags]
  rw [List.append_nil, hend, List.append_nil, List.append_nil] at hcut
  have hwhole : cutTags e.toHtml.toList = (e.toNode.tags, escapeChars e.textContent.toList) :=
    hcut
  refine ⟨?_, hwhole, fun attrs hattrs => splitAt_attrsToHtml hattrs⟩
  rw [hwhole, unescape, String.toList_ofList, unescapeChars_escapeChars, String.ofList_toList]

/-- Texts and values that look like markup. -/
def hostile : Element where
  tag := "div"
  attrs := [("data-code", "\"></div><b a='"), ("title", "&quot;>")]
  children := [.text "</div>&lt;", .element "p" [] [.text "<b>"], .text "&"]

/-- They make no tag and no text but their own. -/
theorem cutTags_toHtml_hostile :
    hostile.toNode.Named ∧
      unescape (String.ofList (cutTags hostile.toHtml.toList).2) = "</div>&lt;<b>&" ∧
      (cutTags hostile.toHtml.toList).1.drop 1 = [['p'], ['/', 'p'], "/div".toList] := by
  have hp : (Node.element "p" [] [.text "<b>"]).Named :=
    .element (by decide) (by simp) (by simpa using Node.Named.text "<b>")
  have hnamed : hostile.toNode.Named := by
    refine .element (by decide) (by decide) ?_
    rintro n (_ | ⟨_, _ | ⟨_, _ | ⟨_, hn⟩⟩⟩)
    · exact .text _
    · exact hp
    · exact .text _
    · cases hn
  obtain ⟨htext, hcut, -⟩ := cutTags_toHtml hnamed
  refine ⟨hnamed, htext, ?_⟩
  rw [hcut]
  rfl

end CodeFence.Markup
