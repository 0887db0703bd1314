import CodeFence.Page.Refresh
import CodeFence.Proofs.TidyBlocks
import CodeFence.Proofs.WrapperText

/-!
# Rendering the blocks of a page again

A page is a row of texts with a wrapper between any two.  Rendering its blocks
again renders them one after the other, each with what its wrapper records, and
leaves the texts as they are.  The page that comes out has the same blocks, so
it does not matter whether a page is rendered again from itself or from what it
was before.

* `Slot`, `page`, `fill` — the places of blocks, a page with wrappers in these
  places, and rendering all of them;
* `refresh_eq_fill` — rendering again is filling the slots that are found;
* `pieces_page` — in a page of written wrappers the slots are found again;
* `refresh_refresh` — a page that was rendered again is rendered again like the
  page that it was before.
-/

namespace CodeFence

/-- The place of a block in a page: the text in front of it, and what it is
rendered from. -/
structure Slot where
  before : String
  config : BlockConfig
  code : String

namespace Slot

/-- The slot of a block that was found behind a text. -/
def ofFound (found : List Char × BlockAttributes) : Slot :=
  ⟨String.ofList found.1, found.2.blockConfig, found.2.originalCode⟩

/-- What the wrapper in a slot records, behind the text in front of it. -/
def found (s : Slot) : List Char × BlockAttributes :=
  (s.before.toList, Wrapper.recorded s.config s.code)

/-- A slot whose configuration can be recorded. -/
structure Recordable (s : Slot) : Prop where
  valid : s.config.isValid = true
  inRange : s.config.InRange

theorem recordable_ofFound (found : List Char × BlockAttributes) :
    (ofFound found).Recordable :=
  ⟨found.2.isValid_blockConfig, found.2.inRange_blockConfig⟩

theorem Recordable.ofFound_found {s : Slot} (h : s.Recordable) : ofFound s.found = s := by
  have hconfig : (Wrapper.recorded s.config s.code).blockConfig = s.config :=
    BlockAttributes.blockConfig_of_render rfl h.valid h.inRange
  unfold ofFound found
  dsimp only
  rw [hconfig, String.ofList_toList]
  rfl

end Slot

/-- A page with wrappers in its slots, and the text behind the last one. -/
def page (blocks : List (Slot × String)) (last : String) : String :=
  String.join (blocks.map fun b => b.1.before ++ b.2) ++ last

theorem toList_page_cons (b : Slot × String) (blocks : List (Slot × String)) (last : String) :
    (page (b :: blocks) last).toList =
      b.1.before.toList ++ (b.2.toList ++ (page blocks last).toList) := by
  simp [page]

namespace Wrapper

/-- A wrapper around a rendering in which no other one begins or ends. -/
def Sound (config : BlockConfig) (code wrapper : String) : Prop :=
  ∃ html, wrapper = render config code html ∧ Closed html ∧ Text.Avoids mark html.toList

/-- **The slots are found again** in a page of sound wrappers. -/
theorem pieces_page {blocks : List (Slot × String)} {last : String}
    (hquiet : ∀ b ∈ blocks, Quiet b.1.before.toList)
    (hsound : ∀ b ∈ blocks, Sound b.1.config b.1.code b.2)
    (hlast : pieces last.toList = [.text last.toList]) :
    pieces (page blocks last).toList =
      piecesOf (blocks.map fun b => b.1.found) last.toList := by
  induction blocks with
  | nil => simpa [page, piecesOf] using hlast
  | cons b rest ih =>
      obtain ⟨hfirst, hrest⟩ := List.forall_mem_cons.mp hquiet
      obtain ⟨⟨html, hhtml, hclosed, -⟩, hwritten⟩ := List.forall_mem_cons.mp hsound
      rw [toList_page_cons, hhtml, pieces_render hfirst _ _ hclosed, ih hrest hwritten]
      rfl

/-- **The wrappers are counted again** in a page of sound wrappers. -/
theorem all_page {blocks : List (Slot × String)} {last : String}
    (hquiet : ∀ b ∈ blocks, Quiet b.1.before.toList)
    (hsound : ∀ b ∈ blocks, Sound b.1.config b.1.code b.2)
    (hlast : ¬ mark <:+: last.toList) :
    all (page blocks last).toList = blocks.map fun b => recorded b.1.config b.1.code := by
  induction blocks with
  | nil => simpa [page] using all_of_no_mark hlast
  | cons b rest ih =>
      obtain ⟨hfirst, hrest⟩ := List.forall_mem_cons.mp hquiet
      obtain ⟨⟨html, hhtml, -, hmark⟩, hwritten⟩ := List.forall_mem_cons.mp hsound
      rw [toList_page_cons, hhtml, all_render hfirst _ _ hmark, ih hrest hwritten]
      rfl

end Wrapper

namespace Pipeline

open Markup Wrapper

variable {σ : Type}

/-- Renders the block of a slot. -/
def fillSlot (now : Nat) (s : Slot) : StateM (Pipeline σ) (Slot × String) := do
  return (s, ← renderWrapped s.code s.config now)

/-- Renders the blocks of all slots, one after the other. -/
def fill (slots : List Slot) (last : String) (now : Nat) : StateM (Pipeline σ) String := do
  return page (← slots.mapM (fillSlot now)) last

theorem mapM_cons_run {α β : Type} (f : α → StateM (Pipeline σ) β) (a : α) (as : List α)
    (p : Pipeline σ) :
    (a :: as).mapM f p =
      ((f a p).1 :: (as.mapM f (f a p).2).1, (as.mapM f (f a p).2).2) := by
  rw [List.mapM_cons]
  rfl

theorem fillSlot_run (now : Nat) (s : Slot) (p : Pipeline σ) :
    fillSlot now s p =
      ((s, (renderWrapped s.code s.config now p).1),
        (renderWrapped s.code s.config now p).2) := rfl

/-- Texts stay, and blocks are rendered where they stand. -/
theorem mapM_refreshPiece (found : List (List Char × BlockAttributes)) (last : List Char)
    (now : Nat) (p : Pipeline σ) :
    let filled := (found.map Slot.ofFound).mapM (fillSlot now) p
    (piecesOf found last).mapM (refreshPiece now) p =
      (filled.1.flatMap (fun b => [b.1.before, b.2]) ++ [String.ofList last], filled.2) := by
  induction found generalizing p with
  | nil => rfl
  | cons f rest ih =>
      have hrest := ih (fillSlot now (Slot.ofFound f) p).2
      change (Piece.text f.1 :: .block f.2 :: piecesOf rest last).mapM (refreshPiece now) p = _
      rw [mapM_cons_run, mapM_cons_run, List.map_cons, mapM_cons_run]
      change (String.ofList f.1 :: _ :: ((piecesOf rest last).mapM (refreshPiece now)
        (fillSlot now (Slot.ofFound f) p).2).1, ((piecesOf rest last).mapM (refreshPiece now)
        (fillSlot now (Slot.ofFound f) p).2).2) = _
      rw [hrest]
      rfl

/-- **Rendering again is filling slots.** -/
theorem refresh_eq_fill {html : String} {found : List (List Char × BlockAttributes)}
    {last : List Char} (h : pieces html.toList = piecesOf found last) (now : Nat) :
    (refresh html now : StateM (Pipeline σ) String) =
      fill (found.map Slot.ofFound) (String.ofList last) now := by
  funext p
  have hrun := mapM_refreshPiece found last now p
  have hjoin : ∀ blocks : List (Slot × String),
      String.join (blocks.flatMap (fun b => [b.1.before, b.2]) ++ [String.ofList last]) =
        page blocks (String.ofList last) := by
    intro blocks
    induction blocks with
    | nil => simp [page]
    | cons b blocks ih =>
        rw [List.flatMap_cons, List.append_assoc, String.join_append, ih]
        simp [page, String.append_assoc]
  change (String.join (((pieces html.toList).mapM (refreshPiece now) p).1),
    ((pieces html.toList).mapM (refreshPiece now) p).2) = _
  rw [h, hrun, hjoin]
  rfl

/-- **The frame of a page.**  In a page of sound wrappers every text stays, and
every wrapper gives way to one for the same source and configuration. -/
theorem refresh_page {blocks : List (Slot × String)} {last : String}
    (hrecordable : ∀ b ∈ blocks, b.1.Recordable)
    (hquiet : ∀ b ∈ blocks, Quiet b.1.before.toList)
    (hsound : ∀ b ∈ blocks, Sound b.1.config b.1.code b.2)
    (hlast : pieces last.toList = [.text last.toList]) (now : Nat) :
    (refresh (page blocks last) now : StateM (Pipeline σ) String) =
      fill (blocks.map Prod.fst) last now := by
  have hslots : (blocks.map fun b => b.1.found).map Slot.ofFound = blocks.map Prod.fst := by
    rw [List.map_map]
    exact List.map_congr_left fun b hb => (hrecordable b hb).ofFound_found
  rw [refresh_eq_fill (pieces_page hquiet hsound hlast), hslots, String.ofList_toList]

/-- What is kept by rendering a block is kept by filling slots, and whatever is
in a slot was written by a pipeline for which it holds. -/
theorem mapM_fillSlot {I : Pipeline σ → Prop} {now : Nat}
    (hI : ∀ code config p, I p → I (renderWrapped code config now p).2) (slots : List Slot)
    {p : Pipeline σ} (hp : I p) :
    let filled := slots.mapM (fillSlot now) p
    filled.1.map Prod.fst = slots ∧ I filled.2 ∧
      ∀ b ∈ filled.1, ∃ q, I q ∧ b.2 = (renderWrapped b.1.code b.1.config now q).1 := by
  induction slots generalizing p with
  | nil => exact ⟨rfl, hp, fun b hb => by cases hb⟩
  | cons s rest ih =>
      obtain ⟨hslots, hlast, hwritten⟩ := ih (hI s.code s.config p hp)
      rw [mapM_cons_run, fillSlot_run]
      refine ⟨congrArg (s :: ·) hslots, hlast, ?_⟩
      exact List.forall_mem_cons.mpr ⟨⟨p, hp, rfl⟩, hwritten⟩

/-! ## Pipelines over tidy engines -/

variable {engine : Engine σ}

/-- A pipeline all of whose blocks are tidy. -/
def TidyCache (engine : Engine σ) (p : Pipeline σ) : Prop :=
  Supplied engine (fun d _ => d.Tidy) p

/-- Every block of a tidy engine is tidy. -/
theorem tidy_render (htidy : engine.Tidy) {p : Pipeline σ} (hp : TidyCache engine p)
    (code language : String) (config : BlockConfig) (asked : Option String) (now : Nat) :
    (render code language config asked now p).1.Tidy :=
  Pass.tidy_applyAll _ _ ((vouches_tidy htidy).highlighted hp code language _ now)

/-- A block of a tidy engine is put into a sound wrapper. -/
theorem sound_renderWrapped (htidy : engine.Tidy) {p : Pipeline σ}
    (hp : TidyCache engine p) (code : String) (config : BlockConfig) (now : Nat) :
    Sound config code (renderWrapped code config now p).1 := by
  have hblock := tidy_render htidy hp code config.language config none now
  have hrun : (renderWrapped code config now p).1 = Wrapper.render config code
      (render code config.language config none now p).1.toHtml := rfl
  rw [hrun]
  generalize (render code config.language config none now p).1 = d at hblock ⊢
  exact ⟨d.toHtml, rfl, fun rest => hblock.cutAround?_closing rest, hblock.avoids_mark⟩

theorem TidyCache.renderWrapped (htidy : engine.Tidy) {p : Pipeline σ}
    (hp : TidyCache engine p) (code : String) (config : BlockConfig) (now : Nat) :
    TidyCache engine (renderWrapped code config now p).2 :=
  (lasting_supplied (vouches_tidy htidy)).highlighted code config.language
    (p.resolveTheme config none) ⟨p, now⟩ hp

/-- **Twice is once.**  A page that was rendered again by a tidy engine is
rendered again like the page that it was before, by any pipeline. -/
theorem refresh_refresh (htidy : engine.Tidy) {p : Pipeline σ} (hp : TidyCache engine p)
    (html : String) (now : Nat) {τ : Type} (later : Nat) :
    (refresh (refresh html now p).1 later : StateM (Pipeline τ) String) = refresh html later := by
  obtain ⟨found, last, hpieces, hquiet, hlast⟩ := exists_pieces html.toList
  obtain ⟨hslots, -, hwritten⟩ := mapM_fillSlot (I := TidyCache engine)
    (fun code config q hq => hq.renderWrapped htidy code config now)
    (found.map Slot.ofFound) hp
  have hout : (refresh html now p).1 =
      page ((found.map Slot.ofFound).mapM (fillSlot now) p).1 (String.ofList last) := by
    rw [refresh_eq_fill hpieces]
    rfl
  generalize ((found.map Slot.ofFound).mapM (fillSlot now) p).1 = blocks at hslots hwritten hout
  have hslot : ∀ b ∈ blocks, ∃ f ∈ found, b.1 = Slot.ofFound f := by
    intro b hb
    have hmem : b.1 ∈ found.map Slot.ofFound := hslots ▸ List.mem_map_of_mem hb
    obtain ⟨f, hf, heq⟩ := List.mem_map.mp hmem
    exact ⟨f, hf, heq.symm⟩
  rw [hout, refresh_page, hslots, refresh_eq_fill hpieces]
  · intro b hb
    obtain ⟨f, -, heq⟩ := hslot b hb
    exact heq ▸ Slot.recordable_ofFound f
  · intro b hb
    obtain ⟨f, hf, heq⟩ := hslot b hb
    rw [heq]
    simpa [Slot.ofFound] using hquiet f hf
  · intro b hb
    obtain ⟨q, hq, heq⟩ := hwritten b hb
    rw [heq]
    exact sound_renderWrapped htidy hq _ _ _
  · simpa using hlast

end Pipeline

end CodeFence
