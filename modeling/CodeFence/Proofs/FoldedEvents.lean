import CodeFence.Markdown.Fold
import CodeFence.Proofs.DeliveredEvents

/-!
# Replacing code event by event

The code of a document is replaced while its events go by.  Between the event that
opens a block of code and the one that closes it, pieces of text are collected; all
other events are passed on, apart from code inside a line.  So what comes out are
events of the document whose code has been replaced, and everything was replaced in
the order of the document.

* `Fold.run_append`, `Fold.run_pieces` — going through events, and collecting pieces;
* `Folds` — going through events does what an action on the document does;
* `Inline.folds_replaceAllCode`, `Block.folds_replaceAllCode` — replacing code.
-/

namespace CodeFence.Markdown

variable {τ α β γ : Type} {onBlock : String → String → StateM τ String}
  {onSpan : String → StateM τ (Option String)} {P Q : List Event → Prop}

/-- Whether an event is about code. -/
def Event.isCode : Event → Bool
  | .start (.code _) | .code _ => true
  | _ => false

namespace Fold

theorem run_append (f : Fold) (es fs : List Event) (s : τ) :
    run onBlock onSpan f (es ++ fs) s =
      run onBlock onSpan (run onBlock onSpan f es s).1 fs (run onBlock onSpan f es s).2 := by
  rw [run, List.foldlM_append]
  rfl

theorem run_singleton (f : Fold) (e : Event) (s : τ) :
    run onBlock onSpan f [e] s = step onBlock onSpan f e s := by
  rw [run, List.foldlM_cons]
  rfl

/-- An event that is not about code is passed on. -/
theorem step_of_not_code {e : Event} (he : e.isCode = false) (done : List Event) (s : τ) :
    step onBlock onSpan { done } e s = ({ done := done ++ [e] }, s) := by
  cases e with
  | start opening =>
      cases opening with
      | code kind => cases he
      | _ => rfl
  | code text => cases he
  | _ => rfl

theorem run_of_not_code {es : List Event} (hes : ∀ e ∈ es, e.isCode = false) (done : List Event)
    (s : τ) : run onBlock onSpan { done } es s = ({ done := done ++ es }, s) := by
  induction es generalizing done with
  | nil =>
      rw [List.append_nil]
      rfl
  | cons e es ih =>
      obtain ⟨he, hrest⟩ := List.forall_mem_cons.mp hes
      rw [← List.singleton_append, run_append, run_singleton, step_of_not_code he, ih hrest,
        List.append_assoc]

/-- The pieces of text in a block of code are put together. -/
theorem run_pieces (done : List Event) (b : OpenBlock) (pieces : List String) (s : τ) :
    run onBlock onSpan { done, openBlock := some b } (pieces.map .text) s =
      ({ done, openBlock := some { b with code := b.code ++ String.join pieces } }, s) := by
  induction pieces generalizing b with
  | nil =>
      rw [String.join_nil, String.append_empty]
      rfl
  | cons piece pieces ih =>
      have hfirst : step onBlock onSpan { done, openBlock := some b } (.text piece) s =
          ({ done, openBlock := some { b with code := b.code ++ piece } }, s) := rfl
      rw [List.map_cons, ← List.singleton_append, run_append, run_singleton, hfirst, ih,
        String.join_cons, String.append_assoc]

end Fold

/-- Going through events of which `P` holds does what an action does, and what comes out
is in the relation `D` to the result of the action. -/
def Folds (onBlock : String → String → StateM τ String)
    (onSpan : String → StateM τ (Option String)) (P : List Event → Prop) (x : StateM τ α)
    (D : α → List Event → Prop) : Prop :=
  ∀ es, P es → ∀ done s, ∃ es',
    Fold.run onBlock onSpan { done } es s = ({ done := done ++ es' }, (x s).2) ∧ D (x s).1 es'

namespace Folds

variable {x : StateM τ α} {y : StateM τ β} {D : α → List Event → Prop}
  {E : β → List Event → Prop} {F : γ → List Event → Prop}

/-- Events that are not about code are passed on. -/
theorem pure {a : α} (h : ∀ es, P es → (∀ e ∈ es, e.isCode = false) ∧ D a es) :
    Folds onBlock onSpan P (Pure.pure a) D := by
  intro es hes done s
  obtain ⟨hnone, hD⟩ := h es hes
  exact ⟨es, Fold.run_of_not_code hnone done s, hD⟩

theorem imp {D' : α → List Event → Prop} (hx : Folds onBlock onSpan P x D)
    (h : ∀ a es, D a es → D' a es) : Folds onBlock onSpan P x D' := by
  intro es hes done s
  obtain ⟨es', hrun, hD⟩ := hx es hes done s
  exact ⟨es', hrun, h _ _ hD⟩

/-- What is built of a result. -/
theorem map (hx : Folds onBlock onSpan P x D) {build : α → γ}
    (h : ∀ a es, D a es → F (build a) es) :
    Folds onBlock onSpan P (do return build (← x)) F := by
  intro es hes done s
  obtain ⟨es', hrun, hD⟩ := hx es hes done s
  exact ⟨es', hrun, h _ _ hD⟩

/-- What is around events stays there. -/
theorem around {opening : Opening} {closing : Closing}
    (hopening : Event.isCode (.start opening) = false)
    (hx : Folds onBlock onSpan P x fun a es => D a (Event.around opening closing es)) :
    Folds onBlock onSpan (Around opening closing P) x D := by
  intro events hevents done s
  obtain ⟨inner, hinner, rfl⟩ := hevents
  obtain ⟨es', hrun, hD⟩ := hx inner hinner (done ++ [.start opening]) s
  refine ⟨Event.around opening closing es', ?_, hD⟩
  rw [Event.around, ← List.singleton_append, List.append_assoc, Fold.run_append,
    Fold.run_singleton, Fold.step_of_not_code hopening, Fold.run_append, hrun, Fold.run_singleton,
    Fold.step_of_not_code rfl, Event.around]
  simp only [List.append_assoc, List.cons_append, List.nil_append]

/-- One action after the other. -/
theorem both (hx : Folds onBlock onSpan P x D) (hy : Folds onBlock onSpan Q y E)
    {build : α → β → γ} (h : ∀ a b es fs, D a es → E b fs → F (build a b) (es ++ fs)) :
    Folds onBlock onSpan (Then P Q) (do return build (← x) (← y)) F := by
  intro events hevents done s
  obtain ⟨front, back, hfront, hback, rfl⟩ := hevents
  obtain ⟨es, hrun, hD⟩ := hx front hfront done s
  obtain ⟨fs, hrun', hE⟩ := hy back hback (done ++ es) (x s).2
  refine ⟨es ++ fs, ?_, h _ _ _ _ hD hE⟩
  rw [Fold.run_append, hrun, hrun', List.append_assoc]
  rfl

/-- Actions on the elements of a list, one after the other. -/
theorem each {P : α → List Event → Prop} {f : α → StateM τ β}
    (h : ∀ a, Folds onBlock onSpan (P a) (f a) E) (as : List α) :
    Folds onBlock onSpan (Each P as) (as.mapM f) (Each E) := by
  induction as with
  | nil => exact .pure fun es hes => ⟨by simp [show es = [] from hes], hes⟩
  | cons a as ih =>
      rw [List.mapM_cons]
      exact (h a).both ih fun _ _ _ _ => then_of

end Folds

/-! ## Text -/

namespace Inline

/-- Code inside a line gives way to markup, or it is passed on. -/
theorem folds_code (text : String) :
    Folds onBlock onSpan (Delivered (.code text)) (placeSpan onSpan text) Delivered := by
  intro events hevents done s
  obtain rfl : events = [.code text] := hevents
  have hbind : ∀ {α β : Type} (x : StateM τ α) (f : α → StateM τ β) (s : τ),
      (x >>= f) s = f (x s).1 (x s).2 := fun _ _ _ => rfl
  rw [Fold.run_singleton, Fold.step, placeSpan, hbind]
  dsimp only
  rw [hbind]
  cases (onSpan text s).1 with
  | some raw => exact ⟨[.inlineHtml raw], rfl, rfl⟩
  | none => exact ⟨[.code text], rfl, rfl⟩

mutual

theorem folds_replaceCode (i : Inline) :
    Folds onBlock onSpan i.Delivered (i.replaceCode (placeSpan onSpan)) Delivered := by
  have hleaf : ∀ (j : Inline) (e : Event), e.isCode = false → j.Delivered = (· = [e]) →
      Folds onBlock onSpan j.Delivered (Pure.pure j) Delivered := by
    intro j e he hj
    refine .pure fun es hes => ⟨?_, hes⟩
    rw [hj] at hes
    simpa [hes] using he
  cases i with
  | code s => exact folds_code s
  | html raw => exact hleaf _ _ rfl rfl
  | softBreak => exact hleaf _ _ rfl rfl
  | hardBreak => exact hleaf _ _ rfl rfl
  | task isDone => exact hleaf _ _ rfl rfl
  | note label => exact hleaf _ _ rfl rfl
  | text s =>
      refine .pure fun es hes => ⟨?_, hes⟩
      obtain ⟨pieces, -, rfl⟩ := hes
      intro e he
      obtain ⟨piece, -, rfl⟩ := List.mem_map.mp he
      rfl
  | styled style content =>
      exact .around rfl ((folds_replaceAllCode content).map fun _ _ => around_of _ _)
  | link target content =>
      exact .around rfl ((folds_replaceAllCode content).map fun _ _ => around_of _ _)
  | image target content =>
      exact .around rfl ((folds_replaceAllCode content).map fun _ _ => around_of _ _)

/-- **Pieces of text** come out with their code replaced. -/
theorem folds_replaceAllCode (content : List Inline) :
    Folds onBlock onSpan (AllDelivered content) (replaceAllCode (placeSpan onSpan) content)
      AllDelivered := by
  cases content with
  | nil => exact .pure fun es hes => ⟨by simp [show es = [] from hes], hes⟩
  | cons i rest =>
      exact (folds_replaceCode i).both (folds_replaceAllCode rest) fun _ _ _ _ => then_of

end

end Inline

/-! ## Blocks -/

namespace Block

/-- A block of code gives way to markup for its info string and its whole text, in
whatever pieces that comes. -/
theorem folds_code (info text : String) :
    Folds onBlock onSpan (CodeDelivered info text) (placeBlock onBlock info text) Delivered := by
  intro events hevents done s
  obtain ⟨kind, pieces, rfl, rfl, rfl⟩ := hevents
  refine ⟨[.html (onBlock kind.info (String.join pieces) s).1], ?_,
    [(onBlock kind.info (String.join pieces) s).1], join_singleton _, Or.inr rfl⟩
  have hopen : Fold.step onBlock onSpan { done } (.start (.code kind)) s =
      ({ done, openBlock := some { info := kind.info } }, s) := rfl
  rw [Event.around, ← List.singleton_append, List.append_assoc, Fold.run_append,
    Fold.run_singleton, hopen, Fold.run_append, Fold.run_pieces, Fold.run_singleton,
    String.empty_append]
  rfl

theorem folds_cells (cells : List (List Inline)) :
    Folds onBlock onSpan (CellsDelivered cells)
      (cells.mapM (Inline.replaceAllCode (placeSpan onSpan))) CellsDelivered :=
  .each (fun content => .around rfl
    ((Inline.folds_replaceAllCode content).imp fun _ _ => around_of _ _)) cells

mutual

theorem folds_replaceCode (b : Block (List Inline)) :
    Folds onBlock onSpan b.Delivered (b.replaceCode (placeBlock onBlock) (placeSpan onSpan))
      Delivered := by
  have htext := @Inline.folds_replaceAllCode τ onBlock onSpan
  cases b with
  | code info s => exact folds_code info s
  | paragraph content => exact .around rfl ((htext content).map fun _ _ => around_of _ _)
  | plain content => exact (htext content).map fun _ _ h => h
  | heading level content => exact .around rfl ((htext content).map fun _ _ => around_of _ _)
  | quote children =>
      exact .around rfl ((folds_replaceAllCode children).map fun _ _ => around_of _ _)
  | list start items =>
      exact .around rfl ((folds_replaceItemCode items).map fun _ _ => around_of _ _)
  | table alignments head rows =>
      have hcells : ∀ opening closing cells, Event.isCode (.start opening) = false →
          Folds onBlock onSpan (Around opening closing (CellsDelivered cells))
            (cells.mapM (Inline.replaceAllCode (placeSpan onSpan)))
            fun cells' => Around opening closing (CellsDelivered cells') :=
        fun _ _ cells hopening =>
          .around hopening ((folds_cells cells).imp fun _ _ => around_of _ _)
      have hrows := Folds.each (fun row => hcells .tableRow .tableRow row rfl) rows
      refine .around rfl ((hcells .tableHead .tableHead head rfl).both hrows ?_)
      exact fun _ _ _ _ hhead hbody => around_of _ _ (then_of hhead hbody)
  | footnote label children =>
      exact .around rfl ((folds_replaceAllCode children).map fun _ _ => around_of _ _)
  | rule => exact .pure fun es hes => ⟨by simp [show es = [.rule] from hes, Event.isCode], hes⟩
  | task isDone =>
      exact .pure fun es hes => ⟨by simp [show es = [.task isDone] from hes, Event.isCode], hes⟩
  | html raw =>
      refine .pure fun es hes => ⟨?_, hes⟩
      obtain ⟨pieces, -, hpieces⟩ := hes
      have hinner : ∀ e ∈ pieces.map Event.html, e.isCode = false := by
        intro e he
        obtain ⟨piece, -, rfl⟩ := List.mem_map.mp he
        rfl
      rcases hpieces with rfl | rfl
      · intro e he
        rcases List.mem_cons.mp he with rfl | he
        · rfl
        · rcases List.mem_append.mp he with he | he
          · exact hinner e he
          · rw [List.mem_singleton.mp he]
            rfl
      · exact hinner

/-- **The events of a document** come out as events of the document with its code
replaced. -/
theorem folds_replaceAllCode (document : List (Block (List Inline))) :
    Folds onBlock onSpan (AllDelivered document)
      (replaceAllCode (placeBlock onBlock) (placeSpan onSpan) document) AllDelivered := by
  cases document with
  | nil => exact .pure fun es hes => ⟨by simp [show es = [] from hes], hes⟩
  | cons b rest =>
      exact (folds_replaceCode b).both (folds_replaceAllCode rest) fun _ _ _ _ => then_of

theorem folds_replaceItemCode (items : List (List (Block (List Inline)))) :
    Folds onBlock onSpan (ItemsDelivered items)
      (replaceItemCode (placeBlock onBlock) (placeSpan onSpan) items) ItemsDelivered := by
  cases items with
  | nil => exact .pure fun es hes => ⟨by simp [show es = [] from hes], hes⟩
  | cons item rest =>
      exact (Folds.around rfl ((folds_replaceAllCode item).imp fun _ _ => around_of _ _)).both
        (folds_replaceItemCode rest) fun _ _ _ _ => then_of

end

end Block

end CodeFence.Markdown
