import CodeFence.Proofs.MarkdownInserts
import CodeFence.Proofs.PageImages

/-!
# Code that gives way in images

Code inside a line gives way to markup before the document is written, wherever it
stands, and so does code in the content of an image.  There the markup is no markup
any more but a text of its own, and it is described in place of the code.  If the
markup is no beginning of the code, this always shows.

* `Swapped` — what may stand where a piece of text was;
* `Inline.describe_eq_iff`, `Inline.codes_eq_iff`, `Inline.eq_iff_forall_codes` — when
  pieces of text are the same behind it;
* `Block.walk_allImages`, `Block.walk_allLabels` — replacing code swaps pieces of
  text in images, and leaves footnotes as they are;
* `imageTexts_eq_iff`, `codesInImages_eq_iff`, `allImages_eq_iff` — when the texts of
  the images of a document are the same.
-/

namespace CodeFence.Markdown

/-! ## Swapped pieces of text -/

/-- What stands where a piece of text was: the piece itself, or, for some code,
markup that differs from it whatever follows. -/
inductive Swapped (stays goes : String → Prop) : Inline → Inline → Prop
  | other {i : Inline} (h : i.code? = none) : Swapped stays goes i i
  | code {t : String} (h : stays t) : Swapped stays goes (.code t) (.code t)
  | markup {t raw : String} (h : goes t) (hne : ∀ rest rest', t ++ rest ≠ raw ++ rest') :
      Swapped stays goes (.code t) (.html raw)

section Swapped

variable {stays goes : String → Prop} {i j : Inline} {pieces pieces' : List Inline}
  {images images' : List (List Inline)} {number : String → String} {t : String}

theorem Swapped.labels_eq (h : Swapped stays goes i j) : i.labels = j.labels := by
  cases h <;> rfl

/-- What stands in for code sets nothing off. -/
theorem Swapped.leaf (h : Swapped stays goes (.code t) j) : j.leaves = [j] ∧ j.images = [] := by
  cases h <;> exact ⟨rfl, rfl⟩

namespace Inline

/-- **Swapping shows** in a text. -/
theorem describe_eq_iff (h : List.Forall₂ (Swapped stays goes) pieces pieces') :
    describe number pieces = describe number pieces' ↔ pieces = pieces' := by
  induction h with
  | nil => exact iff_of_true rfl rfl
  | cons hswapped _ ih =>
      rw [describe, describe, List.map_cons, List.map_cons, String.join_cons, String.join_cons]
      cases hswapped with
      | other h => rw [String.append_right_inj, List.cons_inj_right]; exact ih
      | code h => rw [String.append_right_inj, List.cons_inj_right]; exact ih
      | markup h hne => exact iff_of_false (hne _ _) (by simp)

theorem length_codes_le (h : List.Forall₂ (Swapped stays goes) pieces pieces') :
    (pieces'.filterMap code?).length ≤ (pieces.filterMap code?).length := by
  induction h with
  | nil => exact Nat.le_refl 0
  | cons hswapped _ ih =>
      cases hswapped with
      | other h => simpa only [List.filterMap_cons_none h] using ih
      | code h => exact Nat.succ_le_succ ih
      | markup h hne => exact Nat.le_succ_of_le ih

/-- **Nothing is swapped** if all code is still there. -/
theorem codes_eq_iff (h : List.Forall₂ (Swapped stays goes) pieces pieces') :
    pieces'.filterMap code? = pieces.filterMap code? ↔ pieces = pieces' := by
  induction h with
  | nil => exact iff_of_true rfl rfl
  | @cons i j rest rest' hswapped hrest ih =>
      cases hswapped with
      | other h =>
          rw [List.filterMap_cons_none h, List.filterMap_cons_none h, List.cons_inj_right, ih]
      | @code t h =>
          have hcode : (code t).code? = some t := rfl
          rw [List.filterMap_cons_some hcode, List.filterMap_cons_some hcode, List.cons_inj_right,
            List.cons_inj_right, ih]
      | @markup t raw h hne =>
          refine iff_of_false (fun heq => ?_) (by simp)
          have hle := length_codes_le hrest
          have hlength : (rest'.filterMap code?).length = (rest.filterMap code?).length + 1 :=
            congrArg List.length heq
          omega

/-- **Nothing is swapped** if no code has to go. -/
theorem eq_iff_forall_codes (hstays : ∀ t, stays t → ¬ goes t)
    (h : List.Forall₂ (Swapped stays goes) pieces pieces') :
    pieces = pieces' ↔ ∀ t ∈ pieces.filterMap code?, ¬ goes t := by
  induction h with
  | nil => exact iff_of_true rfl (List.forall_mem_nil _)
  | cons hswapped _ ih =>
      cases hswapped with
      | other h => rw [List.filterMap_cons_none h, List.cons_inj_right, ih]
      | @code t h =>
          have hcode : (code t).code? = some t := rfl
          rw [List.filterMap_cons_some hcode, List.forall_mem_cons, List.cons_inj_right, ih]
          exact (and_iff_right (hstays t h)).symm
      | @markup t raw h hne =>
          have hcode : (code t).code? = some t := rfl
          rw [List.filterMap_cons_some hcode, List.forall_mem_cons]
          exact iff_of_false (by simp) fun hall => hall.1 h

end Inline

/-- Images with as many pieces each are told apart by all the pieces together. -/
theorem flatten_eq_iff (h : List.Forall₂ (List.Forall₂ (Swapped stays goes)) images images') :
    images.flatten = images'.flatten ↔ images = images' := by
  have hlengths : images.map List.length = images'.map List.length := by
    induction h with
    | nil => rfl
    | cons himage _ ih => exact congrArg₂ List.cons himage.length_eq ih
  exact ⟨fun heq => List.eq_iff_flatten_eq.mpr ⟨heq, hlengths⟩, congrArg List.flatten⟩

/-- **Swapping shows** in the texts of images. -/
theorem map_describe_eq_iff
    (h : List.Forall₂ (List.Forall₂ (Swapped stays goes)) images images') :
    images'.map (Inline.describe number) = images.map (Inline.describe number) ↔
      images = images' := by
  induction h with
  | nil => exact iff_of_true rfl rfl
  | cons himage _ ih =>
      rw [List.map_cons, List.map_cons, List.cons_eq_cons, List.cons_eq_cons, ih,
        eq_comm, Inline.describe_eq_iff himage]

end Swapped

/-! ## Replaced code in images -/

section Replacement

variable {τ : Type} {I : τ → Prop} {stays goes : String → Prop}
  {onBlock : String → String → StateM τ (Block (List Inline))}
  {onInline : String → StateM τ Inline}

/-- A replacement that swaps code inside a line. -/
def SwapsSpans (I : τ → Prop) (stays goes : String → Prop) (onInline : String → StateM τ Inline) :
    Prop :=
  ∀ text s, I s → I (onInline text s).2 ∧
    Swapped stays goes (.code text) (onInline text s).1

namespace Inline

/-- A piece of text that is no code and sets nothing off. -/
theorem walk_leaf {i : Inline} (hi : i.leaves = [i]) (hcode : i.code? = none) :
    Walk I (Swapped stays goes) i.leaves leaves (Pure.pure i) := by
  apply Walk.pure
  rw [hi]
  exact .cons (.other hcode) .nil

mutual

theorem walk_leaves (h : SwapsSpans I stays goes onInline) (i : Inline) :
    Walk I (Swapped stays goes) i.leaves leaves (i.replaceCode onInline) := by
  cases i with
  | code text =>
      intro s hs
      obtain ⟨hkept, hswapped⟩ := h text s hs
      refine ⟨hkept, ?_⟩
      change List.Forall₂ (Swapped stays goes) [.code text] (onInline text s).1.leaves
      rw [hswapped.leaf.1]
      exact .cons hswapped .nil
  | styled style content => exact (walk_allLeaves h content).around fun _ => rfl
  | link target content => exact (walk_allLeaves h content).around fun _ => rfl
  | image target content => exact (walk_allLeaves h content).around fun _ => rfl
  | html raw => exact walk_leaf rfl rfl
  | text s => exact walk_leaf rfl rfl
  | softBreak => exact walk_leaf rfl rfl
  | hardBreak => exact walk_leaf rfl rfl
  | task isDone => exact walk_leaf rfl rfl
  | note label => exact walk_leaf rfl rfl

/-- **Replacing code** swaps pieces of text. -/
theorem walk_allLeaves (h : SwapsSpans I stays goes onInline) (content : List Inline) :
    Walk I (Swapped stays goes) (allLeaves content) allLeaves
      (replaceAllCode onInline content) := by
  cases content with
  | nil => exact .pure .nil
  | cons i rest => exact (walk_leaves h i).both (walk_allLeaves h rest) fun _ _ => rfl

end

mutual

theorem walk_images (h : SwapsSpans I stays goes onInline) (i : Inline) :
    Walk I (List.Forall₂ (Swapped stays goes)) i.images images (i.replaceCode onInline) := by
  cases i with
  | code text =>
      intro s hs
      obtain ⟨hkept, hswapped⟩ := h text s hs
      refine ⟨hkept, ?_⟩
      change List.Forall₂ _ [] (onInline text s).1.images
      rw [hswapped.leaf.2]
      exact .nil
  | image target content =>
      have hone : Walk I (List.Forall₂ (Swapped stays goes)) [allLeaves content]
          (fun content' => [allLeaves content']) (replaceAllCode onInline content) :=
        (walk_allLeaves h content).imp fun _ hpieces => .cons hpieces .nil
      exact hone.around fun _ => rfl
  | styled style content => exact (walk_allImages h content).around fun _ => rfl
  | link target content => exact (walk_allImages h content).around fun _ => rfl
  | html raw => exact .pure .nil
  | text s => exact .pure .nil
  | softBreak => exact .pure .nil
  | hardBreak => exact .pure .nil
  | task isDone => exact .pure .nil
  | note label => exact .pure .nil

/-- **Replacing code** swaps pieces of text in images. -/
theorem walk_allImages (h : SwapsSpans I stays goes onInline) (content : List Inline) :
    Walk I (List.Forall₂ (Swapped stays goes)) (allImages content) allImages
      (replaceAllCode onInline content) := by
  cases content with
  | nil => exact .pure .nil
  | cons i rest => exact (walk_images h i).both (walk_allImages h rest) fun _ _ => rfl

end

mutual

theorem labels_eq_flatMap (i : Inline) : i.labels = i.leaves.flatMap labels := by
  cases i with
  | styled style content => exact allLabels_eq_flatMap content
  | link target content => exact allLabels_eq_flatMap content
  | image target content => exact allLabels_eq_flatMap content
  | text s => rfl
  | code s => rfl
  | html raw => rfl
  | softBreak => rfl
  | hardBreak => rfl
  | task isDone => rfl
  | note label => rfl

theorem allLabels_eq_flatMap (content : List Inline) :
    allLabels content = (allLeaves content).flatMap labels := by
  cases content with
  | nil => rfl
  | cons i rest =>
      rw [allLabels, allLeaves, List.flatMap_append, labels_eq_flatMap i,
        allLabels_eq_flatMap rest]

end

/-- **Replacing code** leaves the footnotes that are mentioned as they are. -/
theorem walk_allLabels (h : SwapsSpans I stays goes onInline) (content : List Inline) :
    Walk I Eq (allLabels content) allLabels (replaceAllCode onInline content) := by
  refine (walk_allLeaves h content).imp fun content' hpieces => ?_
  rw [allLabels_eq_flatMap, allLabels_eq_flatMap]
  exact List.rel_flatMap hpieces fun _ _ hswapped =>
    List.forall₂_eq_eq_eq ▸ hswapped.labels_eq

end Inline

namespace Block

variable {B : String → String → String → Prop}

mutual

theorem walk_images (hblock : FillsBlocks I B onBlock) (h : SwapsSpans I stays goes onInline)
    (b : Block (List Inline)) :
    Walk I (List.Forall₂ (Swapped stays goes)) b.images images
      (b.replaceCode onBlock onInline) := by
  have htext := Inline.walk_allImages h
  cases b with
  | code info text =>
      intro s hs
      obtain ⟨hkept, raw, -, hraw⟩ := hblock info text s hs
      refine ⟨hkept, ?_⟩
      change List.Forall₂ (List.Forall₂ (Swapped stays goes)) [] (onBlock info text s).1.images
      rw [hraw]
      exact .nil
  | html raw => exact .pure .nil
  | paragraph content => exact (htext content).around fun _ => rfl
  | plain content => exact (htext content).around fun _ => rfl
  | heading level content => exact (htext content).around fun _ => rfl
  | quote children => exact (walk_allImages hblock h children).around fun _ => rfl
  | list start items => exact (walk_itemImages hblock h items).around fun _ => rfl
  | table alignments head rows =>
      exact (Walk.mapM htext).both (Walk.mapM fun row => Walk.mapM htext) fun _ _ => rfl
  | footnote label children => exact (walk_allImages hblock h children).around fun _ => rfl
  | rule => exact .pure .nil
  | task isDone => exact .pure .nil

/-- **Replacing code** swaps pieces of text in images. -/
theorem walk_allImages (hblock : FillsBlocks I B onBlock)
    (h : SwapsSpans I stays goes onInline) (document : List (Block (List Inline))) :
    Walk I (List.Forall₂ (Swapped stays goes)) (allImages document) allImages
      (replaceAllCode onBlock onInline document) := by
  cases document with
  | nil => exact .pure .nil
  | cons b rest =>
      exact (walk_images hblock h b).both (walk_allImages hblock h rest) fun _ _ => rfl

theorem walk_itemImages (hblock : FillsBlocks I B onBlock)
    (h : SwapsSpans I stays goes onInline) (items : List (List (Block (List Inline)))) :
    Walk I (List.Forall₂ (Swapped stays goes)) (itemImages items) itemImages
      (replaceItemCode onBlock onInline items) := by
  cases items with
  | nil => exact .pure .nil
  | cons item rest =>
      exact (walk_allImages hblock h item).both (walk_itemImages hblock h rest) fun _ _ => rfl

end

theorem flatMap_allLabels_table (head : List (List Inline)) (rows : List (List (List Inline))) :
    (head ++ rows.flatten).flatMap Inline.allLabels =
      head.flatMap Inline.allLabels ++ rows.flatMap fun row => row.flatMap Inline.allLabels := by
  rw [List.flatMap_append, List.flatten_eq_flatMap, List.flatMap_assoc]
  rfl

mutual

theorem walk_labels (hblock : FillsBlocks I B onBlock) (h : SwapsSpans I stays goes onInline)
    (b : Block (List Inline)) :
    Walk I Eq b.labels labels (b.replaceCode onBlock onInline) := by
  have htext := Inline.walk_allLabels h
  cases b with
  | code info text =>
      intro s hs
      obtain ⟨hkept, raw, -, hraw⟩ := hblock info text s hs
      refine ⟨hkept, ?_⟩
      change List.Forall₂ Eq [] (onBlock info text s).1.labels
      rw [hraw]
      exact .nil
  | html raw => exact .pure .nil
  | paragraph content => exact (htext content).around fun _ => rfl
  | plain content => exact (htext content).around fun _ => rfl
  | heading level content => exact (htext content).around fun _ => rfl
  | quote children => exact (walk_allLabels hblock h children).around fun _ => rfl
  | list start items => exact (walk_itemLabels hblock h items).around fun _ => rfl
  | table alignments head rows =>
      rw [labels, flatMap_allLabels_table]
      exact (Walk.mapM htext).both (Walk.mapM fun row => Walk.mapM htext)
        fun head' rows' => flatMap_allLabels_table head' rows'
  | footnote label children =>
      have hlabels : Walk I Eq (label :: allLabels children)
          (fun children' => label :: allLabels children')
          (replaceAllCode onBlock onInline children) :=
        (walk_allLabels hblock h children).imp fun _ hlabels => .cons rfl hlabels
      exact hlabels.around fun _ => rfl
  | rule => exact .pure .nil
  | task isDone => exact .pure .nil

/-- **Replacing code** leaves the footnotes that are mentioned as they are. -/
theorem walk_allLabels (hblock : FillsBlocks I B onBlock)
    (h : SwapsSpans I stays goes onInline) (document : List (Block (List Inline))) :
    Walk I Eq (allLabels document) allLabels (replaceAllCode onBlock onInline document) := by
  cases document with
  | nil => exact .pure .nil
  | cons b rest =>
      exact (walk_labels hblock h b).both (walk_allLabels hblock h rest) fun _ _ => rfl

theorem walk_itemLabels (hblock : FillsBlocks I B onBlock)
    (h : SwapsSpans I stays goes onInline) (items : List (List (Block (List Inline)))) :
    Walk I Eq (itemLabels items) itemLabels (replaceItemCode onBlock onInline items) := by
  cases items with
  | nil => exact .pure .nil
  | cons item rest =>
      exact (walk_allLabels hblock h item).both (walk_itemLabels hblock h rest) fun _ _ => rfl

end

end Block

end Replacement

section Documents

variable {stays goes : String → Prop} {document document' : List (Block (List Inline))}
  (h : List.Forall₂ (List.Forall₂ (Swapped stays goes)) (Block.allImages document)
    (Block.allImages document'))

include h

theorem imageTexts_eq_iff (hlabels : Block.allLabels document' = Block.allLabels document) :
    imageTexts document' = imageTexts document ↔
      Block.allImages document = Block.allImages document' := by
  rw [imageTexts_eq_map, imageTexts_eq_map, hlabels]
  exact map_describe_eq_iff h

theorem codesInImages_eq_iff :
    codesInImages document' = codesInImages document ↔
      Block.allImages document = Block.allImages document' :=
  (Inline.codes_eq_iff (List.rel_flatten h)).trans (flatten_eq_iff h)

theorem allImages_eq_iff (hstays : ∀ t, stays t → ¬ goes t) :
    Block.allImages document = Block.allImages document' ↔
      ∀ t ∈ codesInImages document, ¬ goes t :=
  (flatten_eq_iff h).symm.trans (Inline.eq_iff_forall_codes hstays (List.rel_flatten h))

end Documents

end CodeFence.Markdown
