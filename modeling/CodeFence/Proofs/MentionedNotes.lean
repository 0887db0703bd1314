import CodeFence.Markdown.Html
import CodeFence.Proofs.DeliveredEvents

/-!
# Footnotes in events

Footnotes are numbered in the order in which they are mentioned.  However a document is
delivered, its events mention the footnotes of the document in the order of the document.

* `Mentions` — events that mention given footnotes;
* `Block.mentions_of_allDelivered` — the footnotes of a document.
-/

namespace CodeFence.Markdown

/-- The footnotes that events mention. -/
def Mentions (labels : List String) (es : List Event) : Prop :=
  es.filterMap Event.label? = labels

namespace Mentions

variable {labels others : List String} {es : List Event} {P Q : List Event → Prop}

theorem append {fs : List Event} (h : Mentions labels es) (h' : Mentions others fs) :
    Mentions (labels ++ others) (es ++ fs) := by
  rw [Mentions, List.filterMap_append, h, h']

theorem both (hP : ∀ es, P es → Mentions labels es) (hQ : ∀ es, Q es → Mentions others es)
    (hes : Then P Q es) : Mentions (labels ++ others) es := by
  obtain ⟨front, back, hfront, hback, rfl⟩ := hes
  exact (hP front hfront).append (hQ back hback)

theorem each {α : Type} {P : α → List Event → Prop} {held : α → List String}
    (h : ∀ a es, P a es → Mentions (held a) es) {as : List α} (hes : Each P as es) :
    Mentions (as.flatMap held) es := by
  induction as generalizing es with
  | nil =>
      obtain rfl : es = [] := hes
      rfl
  | cons a as ih => exact both (h a) (fun _ => ih) hes

theorem around {opening : Opening} {closing : Closing} (h : ∀ es, P es → Mentions labels es)
    (hes : Around opening closing P es) :
    Mentions ((Event.label? (.start opening)).toList ++ labels) es := by
  obtain ⟨inner, hinner, rfl⟩ := hes
  have hstart : Mentions (Event.label? (.start opening)).toList [.start opening] := by
    rw [Mentions, List.filterMap_cons]
    cases Event.label? (.start opening) <;> rfl
  have hstop : Mentions [] [.stop closing] := rfl
  have hall := (hstart.append (h inner hinner)).append hstop
  rwa [List.append_nil] at hall

/-- Pieces of text mention no footnote. -/
theorem pieces {piece : String → Event} (h : ∀ s, (piece s).label? = none)
    (pieces : List String) : Mentions [] (pieces.map piece) := by
  rw [Mentions, List.filterMap_map, List.filterMap_eq_nil_iff]
  exact fun s _ => h s

end Mentions

mutual

theorem Inline.mentions_of_delivered (i : Inline) {es : List Event} (h : i.Delivered es) :
    Mentions i.labels es := by
  have hleaf : ∀ e, es = [e] → Mentions (Event.label? e).toList es := by
    intro e heq
    rw [heq, Mentions, List.filterMap_cons]
    cases Event.label? e <;> rfl
  cases i with
  | text s =>
      obtain ⟨pieces, -, rfl⟩ := h
      exact .pieces (fun _ => rfl) pieces
  | code s => exact hleaf _ h
  | html raw => exact hleaf _ h
  | softBreak => exact hleaf _ h
  | hardBreak => exact hleaf _ h
  | task isDone => exact hleaf _ h
  | note label => exact hleaf _ h
  | styled style content => exact .around (fun _ => mentions_of_allDelivered content) h
  | link target content => exact .around (fun _ => mentions_of_allDelivered content) h
  | image target content => exact .around (fun _ => mentions_of_allDelivered content) h

theorem Inline.mentions_of_allDelivered (content : List Inline) {es : List Event}
    (h : Inline.AllDelivered content es) : Mentions (Inline.allLabels content) es := by
  cases content with
  | nil =>
      obtain rfl : es = [] := h
      rfl
  | cons i rest =>
      exact .both (fun _ => mentions_of_delivered i) (fun _ => mentions_of_allDelivered rest) h

end

namespace Block

theorem mentions_of_cellsDelivered (cells : List (List Inline)) {es : List Event}
    (h : CellsDelivered cells es) : Mentions (cells.flatMap Inline.allLabels) es :=
  .each (fun content _ => .around fun _ => Inline.mentions_of_allDelivered content) h

mutual

theorem mentions_of_delivered (b : Block (List Inline)) {es : List Event} (h : b.Delivered es) :
    Mentions b.labels es := by
  have htext : ∀ content es, Inline.AllDelivered content es →
      Mentions (Inline.allLabels content) es :=
    fun content _ => Inline.mentions_of_allDelivered content
  cases b with
  | paragraph content => exact .around (htext content) h
  | plain content => exact htext content es h
  | heading level content => exact .around (htext content) h
  | rule =>
      obtain rfl : es = [.rule] := h
      rfl
  | task isDone =>
      obtain rfl : es = [.task isDone] := h
      rfl
  | code info s =>
      obtain ⟨kind, pieces, -, -, rfl⟩ := h
      exact .around (fun _ heq => heq ▸ .pieces (fun _ => rfl) pieces)
        (around_of (.code kind) .code (Eq.refl (pieces.map Event.text)))
  | html raw =>
      obtain ⟨pieces, -, hpieces⟩ := h
      have hinner : Mentions [] (pieces.map Event.html) := .pieces (fun _ => rfl) pieces
      rcases hpieces with rfl | rfl
      · exact .around (fun _ heq => heq ▸ hinner)
          (around_of .html .html (Eq.refl (pieces.map Event.html)))
      · exact hinner
  | quote children => exact .around (fun _ => mentions_of_allDelivered children) h
  | list start items => exact .around (fun _ => mentions_of_itemsDelivered items) h
  | table alignments head rows =>
      have hall := Mentions.around (fun _ => .both
        (fun _ => .around fun _ => mentions_of_cellsDelivered head)
        (fun _ => .each fun row _ => .around fun _ => mentions_of_cellsDelivered row)) h
      rw [labels, List.flatMap_append, List.flatten_eq_flatMap, List.flatMap_assoc]
      exact hall
  | footnote label children => exact .around (fun _ => mentions_of_allDelivered children) h

theorem mentions_of_allDelivered (document : List (Block (List Inline))) {es : List Event}
    (h : AllDelivered document es) : Mentions (allLabels document) es := by
  cases document with
  | nil =>
      obtain rfl : es = [] := h
      rfl
  | cons b rest =>
      exact .both (fun _ => mentions_of_delivered b) (fun _ => mentions_of_allDelivered rest) h

theorem mentions_of_itemsDelivered (items : List (List (Block (List Inline)))) {es : List Event}
    (h : ItemsDelivered items es) : Mentions (itemLabels items) es := by
  cases items with
  | nil =>
      obtain rfl : es = [] := h
      rfl
  | cons item rest =>
      exact .both (fun _ => .around fun _ => mentions_of_allDelivered item)
        (fun _ => mentions_of_itemsDelivered rest) h

end

end Block

end CodeFence.Markdown
