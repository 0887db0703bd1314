import CodeFence.Markdown.Blocks
import CodeFence.Proofs.MarkdownInserts

/-!
# A draft only grows

While a document is read, blocks are opened and finished, and a block that is
finished moves into the one around it.  Nothing that has been read is lost on the
way.  This needs one thing of the open blocks: an item gives its blocks to the list
that it stands in, so it must stand in one.

* `Block.Within` — a block of code in a block, however deep;
* `Draft.Holds`, `Frame.StandsIn`, `Nested` — what a draft holds, and which open
  blocks stand in each other;
* `Keeps` — what every step of reading does: it loses no code, and items stand in
  lists behind it too;
* `keeps_read` — so reading all lines does;
* `mem_codeBlocks_of_holds` — and what is held in the end is in the document.
-/

namespace CodeFence.Markdown

/-- A block of code with an info string and a text stands in a block, however deep. -/
inductive Block.Within {ι : Type} (info text : String) : Block ι → Prop
  | code : Within info text (.code info text)
  | quote {children : List (Block ι)} {b : Block ι} (hb : b ∈ children)
      (h : Within info text b) : Within info text (.quote children)
  | item {start : Option Nat} {items : List (List (Block ι))} {item : List (Block ι)}
      {b : Block ι} (hitem : item ∈ items) (hb : b ∈ item) (h : Within info text b) :
      Within info text (.list start items)
  | note {label : String} {children : List (Block ι)} {b : Block ι} (hb : b ∈ children)
      (h : Within info text b) : Within info text (.footnote label children)

/-- In a tight list, text is no paragraph, but code is code. -/
theorem Block.Within.tighten {ι : Type} {info text : String} {b : Block ι}
    (h : b.Within info text) : b.tighten.Within info text := by
  cases h with
  | code => exact .code
  | quote hb h => exact .quote hb h
  | item hitem hb h => exact .item hitem hb h
  | note hb h => exact .note hb h

/-- The blocks that an open block has so far. -/
def Frame.blocks : Frame → List RawBlock
  | quote done | item _ done | note _ done => done
  | list _ _ items => items.flatten

/-- An open block may stand in the one around it: items stand in lists only. -/
def Frame.StandsIn : Frame → List Frame → Prop
  | item _ _, list _ _ _ :: _ => True
  | item _ _, _ => False
  | _, _ => True

namespace Frame

theorem mem_blocks_add {f : Frame} {b x : RawBlock} :
    x ∈ (f.add b).blocks ↔ x = b ∨ x ∈ f.blocks := by
  cases f with
  | list mark isLoose items =>
      rw [add, blocks, List.flatten_cons, List.mem_append, List.mem_singleton]
      rfl
  | quote done => exact List.mem_cons
  | item indent done => exact List.mem_cons
  | note label done => exact List.mem_cons

theorem StandsIn.add {f : Frame} {outer : List Frame} (h : f.StandsIn outer) (b : RawBlock) :
    (f.add b).StandsIn outer := by
  cases f with
  | item indent done =>
      cases outer with
      | nil => exact h
      | cons g rest => cases g <;> exact h
  | quote done => trivial
  | list mark isLoose items => trivial
  | note label done => trivial

end Frame

/-- Open blocks each of which may stand in the one around it, innermost first. -/
def Nested : List Frame → Prop
  | [] => True
  | f :: outer => f.StandsIn outer ∧ Nested outer

namespace Draft

variable {d d' d'' : Draft} {b : RawBlock} {info text : String}

/-- The blocks that a draft has so far, finished or in open blocks. -/
def blocks (d : Draft) : List RawBlock :=
  d.done ++ d.spine.flatMap Frame.blocks

/-- A block of code has been read. -/
def Holds (info text : String) (d : Draft) : Prop :=
  ∃ b ∈ d.blocks, b.Within info text

/-- What reading does to a draft: no code is lost, and items stand in lists behind it
if they did before. -/
structure Keeps (d d' : Draft) : Prop where
  nested : Nested d.spine → Nested d'.spine
  holds : ∀ info text, Nested d.spine → d.Holds info text → d'.Holds info text

theorem Keeps.refl (d : Draft) : Keeps d d :=
  ⟨id, fun _ _ _ h => h⟩

theorem Keeps.trans (h : Keeps d d') (h' : Keeps d' d'') : Keeps d d'' where
  nested hd := h'.nested (h.nested hd)
  holds info text hd hholds := h'.holds info text (h.nested hd) (h.holds info text hd hholds)

/-- Steps that leave all blocks as they are. -/
theorem Keeps.of_same (hspine : d'.spine = d.spine) (hdone : d'.done = d.done) : Keeps d d' where
  nested hd := hspine ▸ hd
  holds info text _ hholds := by
    unfold Holds blocks
    rw [hspine, hdone]
    exact hholds

/-- Steps that open a block. -/
theorem Keeps.push {f : Frame} (hspine : d'.spine = f :: d.spine) (hdone : d'.done = d.done)
    (hf : f.StandsIn d.spine) : Keeps d d' where
  nested hd := by
    rw [hspine]
    exact ⟨hf, hd⟩
  holds info text _ hholds := by
    obtain ⟨b, hb, hwithin⟩ := hholds
    refine ⟨b, ?_, hwithin⟩
    rw [blocks, List.mem_append] at hb
    rw [blocks, hspine, hdone, List.flatMap_cons, List.mem_append, List.mem_append]
    exact hb.imp_right Or.inr

/-! ## Adding and finishing blocks -/

theorem mem_blocks_add {x : RawBlock} : x ∈ (d.add b).blocks ↔ x = b ∨ x ∈ d.blocks := by
  unfold add blocks
  cases d.spine with
  | nil => simp only [List.flatMap_nil, List.append_nil, List.mem_cons]
  | cons f outer =>
      simp only [List.flatMap_cons, List.mem_append, Frame.mem_blocks_add]
      tauto

theorem nested_add (hd : Nested d.spine) : Nested (d.add b).spine := by
  unfold add
  split
  · rename_i f outer hspine
    rw [hspine] at hd
    exact ⟨hd.1.add b, hd.2⟩
  · exact hd

theorem keeps_add (d : Draft) (b : RawBlock) : Keeps d (d.add b) where
  nested := nested_add
  holds _ _ _ := fun ⟨x, hx, hwithin⟩ => ⟨x, mem_blocks_add.mpr (Or.inr hx), hwithin⟩

/-- Steps that add a block and leave all others as they are. -/
theorem keeps_add_of_same (hspine : d'.spine = d.spine) (hdone : d'.done = d.done)
    (b : RawBlock) : Keeps d (d'.add b) :=
  (Keeps.of_same hspine hdone).trans (keeps_add d' b)

theorem holds_add_code (d : Draft) (info text : String) :
    (d.add (.code info text)).Holds info text :=
  ⟨_, mem_blocks_add.mpr (Or.inl rfl), .code⟩

theorem mem_blocks_of_spine {f : Frame} {outer : List Frame} (hspine : d.spine = f :: outer)
    {x : RawBlock} : x ∈ d.blocks ↔ x ∈ f.blocks ∨ x ∈ { d with spine := outer }.blocks := by
  unfold blocks
  rw [hspine, List.flatMap_cons, List.mem_append, List.mem_append, List.mem_append]
  tauto

/-- An open block that becomes a finished one with all its code. -/
theorem keeps_closeInto {f : Frame} {outer : List Frame} (hspine : d.spine = f :: outer)
    (hb : ∀ x ∈ f.blocks, ∀ info text, x.Within info text → b.Within info text) :
    Keeps d ({ d with spine := outer }.add b) where
  nested hd := by
    rw [hspine] at hd
    exact nested_add hd.2
  holds info text _ := by
    rintro ⟨x, hx, hwithin⟩
    rcases (mem_blocks_of_spine hspine).mp hx with hx | hx
    · exact ⟨b, mem_blocks_add.mpr (Or.inl rfl), hb x hx info text hwithin⟩
    · exact ⟨x, mem_blocks_add.mpr (Or.inr hx), hwithin⟩

/-- **An item gives its blocks to its list.** -/
theorem keeps_closeItem {indent : Nat} {done : List RawBlock} {outer : List Frame}
    (hspine : d.spine = .item indent done :: outer) :
    Keeps d ({ d with spine := outer }.addItem done.reverse) where
  nested hd := by
    rw [hspine] at hd
    unfold addItem
    split
    · rename_i houter
      have houter : outer = _ := houter
      rw [houter] at hd
      exact ⟨trivial, hd.2.2⟩
    · exact hd.2
  holds info text hd := by
    rw [hspine] at hd
    rintro ⟨x, hx, hwithin⟩
    refine ⟨x, ?_, hwithin⟩
    rw [mem_blocks_of_spine hspine] at hx
    cases outer with
    | nil => exact absurd hd.1 id
    | cons g rest =>
        cases g with
        | quote _ => exact absurd hd.1 id
        | item _ _ => exact absurd hd.1 id
        | note _ _ => exact absurd hd.1 id
        | list mark isLoose items =>
            simp only [addItem, blocks, Frame.blocks, List.flatMap_cons, List.flatten_cons,
              List.mem_append, List.mem_reverse] at hx ⊢
            tauto

theorem within_list_of_mem (mark : ListMark) (isLoose : Bool) {items : List (List RawBlock)}
    {x : RawBlock} (hx : x ∈ items.flatten) (h : x.Within info text) :
    (Block.list mark.number (items.reverse.map (itemBlocks isLoose))).Within info text := by
  obtain ⟨item, hitem, hx⟩ := List.mem_flatten.mp hx
  have hmem : itemBlocks isLoose item ∈ items.reverse.map (itemBlocks isLoose) :=
    List.mem_map_of_mem (List.mem_reverse.mpr hitem)
  cases isLoose with
  | true => exact .item hmem hx h
  | false => exact .item hmem (List.mem_map_of_mem hx) h.tighten

/-- **Finishing a block** loses no code. -/
theorem keeps_close (d : Draft) : Keeps d d.close := by
  unfold close
  split
  · exact .refl d
  · rename_i f outer hspine
    cases f with
    | quote done =>
        exact keeps_closeInto hspine fun x hx info text h => .quote (List.mem_reverse.mpr hx) h
    | list mark isLoose items =>
        have hlist := keeps_closeInto hspine fun x hx info text h =>
          within_list_of_mem mark isLoose hx h
        exact hlist.trans (.of_same rfl rfl)
    | item indent done => exact keeps_closeItem hspine
    | note label done =>
        exact keeps_closeInto hspine fun x hx info text h => .note (List.mem_reverse.mpr hx) h

theorem keeps_closeTo (depth : Nat) (d : Draft) : Keeps d (d.closeTo depth) := by
  have hrepeat : ∀ n d, Keeps d (Nat.repeat close n d) := by
    intro n d
    induction n with
    | zero => exact .refl d
    | succ n ih => exact ih.trans (keeps_close _)
  exact hrepeat _ d

/-! ## Lists -/

theorem keeps_finishItem (d : Draft) : Keeps d d.finishItem := by
  unfold finishItem
  dsimp only
  split
  · split
    · exact (keeps_close d).trans (.of_same rfl rfl)
    · exact .of_same rfl rfl
  · exact .of_same rfl rfl

theorem keeps_closeList (d : Draft) : Keeps d d.closeList := by
  unfold closeList
  split
  · exact keeps_close d
  · exact .refl d

theorem keeps_loosen (d : Draft) : Keeps d d.loosen := by
  unfold loosen
  split
  · rename_i f mark isLoose items outer hspine
    constructor
    · intro hd
      rw [hspine] at hd
      refine ⟨?_, trivial, hd.2.2⟩
      cases f <;> trivial
    · rintro info text - ⟨b, hb, hwithin⟩
      refine ⟨b, ?_, hwithin⟩
      unfold blocks at hb
      rw [hspine] at hb
      exact hb
  · exact .refl d

theorem keeps_finishList (d : Draft) : Keeps d d.finishList := by
  have hclosed := (keeps_finishItem d).trans (keeps_closeList d.finishItem)
  unfold finishList
  dsimp only
  split
  · exact (hclosed.trans (keeps_loosen _)).trans (.of_same rfl rfl)
  · exact hclosed

theorem keeps_continueList (mark : ListMark) (d : Draft) : Keeps d (d.continueList mark) := by
  have hbegin (d : Draft) :
      Keeps d { d with spine := .list mark false [] :: d.spine, lastBlank := false } :=
    .push rfl rfl trivial
  have hfinished := keeps_finishItem d
  unfold continueList
  dsimp only
  split
  · exact hfinished.trans (hbegin _)
  · rename_i old isLoose items outer hspine
    split
    · refine hfinished.trans ⟨fun hd => ?_, ?_⟩
      · rw [hspine] at hd
        exact ⟨trivial, hd.2⟩
      · rintro info text - ⟨b, hb, hwithin⟩
        refine ⟨b, ?_, hwithin⟩
        unfold blocks at hb
        rw [hspine] at hb
        exact hb
    · exact (hfinished.trans (keeps_finishList _)).trans (hbegin _)
  · exact (hfinished.trans (keeps_finishList _)).trans (hbegin _)

/-- Behind the preparation for an item, the innermost open block is a list. -/
theorem standsIn_continueList (mark : ListMark) (d : Draft) (indent : Nat) :
    (Frame.item indent []).StandsIn (d.continueList mark).spine := by
  unfold continueList
  dsimp only
  split
  · trivial
  · split <;> trivial
  · trivial

theorem keeps_blankLine (d : Draft) : Keeps d d.blankLine := by
  unfold blankLine
  split
  · exact .refl d
  · rename_i indent done outer hspine
    refine ⟨fun hd => ?_, ?_⟩
    · rw [hspine] at hd
      refine ⟨?_, hd.2⟩
      cases outer with
      | nil => exact hd.1
      | cons g rest => cases g <;> exact hd.1
    · rintro info text - ⟨b, hb, hwithin⟩
      refine ⟨b, ?_, hwithin⟩
      unfold blocks at hb
      rw [hspine] at hb
      exact hb
  · exact .of_same rfl rfl

/-! ## Opening blocks -/

theorem keeps_openQuote (d : Draft) : Keeps d d.openQuote :=
  (keeps_finishList d).trans (.push rfl rfl trivial)

theorem keeps_openNote (label : List Char) (d : Draft) : Keeps d (d.openNote label) := by
  have hfinished := keeps_finishList d
  unfold openNote
  dsimp only
  split
  · exact (hfinished.trans (keeps_close _)).trans (.push rfl rfl trivial)
  · exact hfinished.trans (.push rfl rfl trivial)

theorem keeps_readTask (d : Draft) (c : Cursor) : Keeps d (d.readTask c).1 := by
  unfold readTask
  dsimp only
  split
  · split
    · exact keeps_add d _
    · exact .of_same rfl rfl
  · exact .refl d

theorem keeps_openItem (indent : Nat) (mark : ListMark) (c : Cursor) (d : Draft) :
    Keeps d (d.openItem indent mark c).1 := by
  have hopened (indent : Nat) :
      Keeps d { d.continueList mark with
        spine := .item indent [] :: (d.continueList mark).spine } :=
    (keeps_continueList mark d).trans (.push rfl rfl (standsIn_continueList mark d indent))
  unfold openItem
  dsimp only
  generalize (if Cursor.isBlank _ then _ else _ : Nat × Cursor) = r
  split
  · exact hopened _
  · exact (hopened _).trans (keeps_readTask _ _)

theorem keeps_openNote? {c c' : Cursor} {behind : List Line} {used : Nat}
    (h : d.openNote? c behind = some (d', c', used)) : Keeps d d' := by
  unfold openNote? at h
  split at h
  · obtain ⟨⟨label, left⟩, -, heq⟩ := Option.map_eq_some_iff.mp h
    obtain ⟨rfl, -⟩ := Prod.mk.inj heq
    exact keeps_openNote label d
  · cases h

/-- **Opening a block** loses no code. -/
theorem keeps_open? {c c' : Cursor} {behind : List Line} {used : Nat}
    (h : d.open? c behind = some (d', c', used)) : Keeps d d' := by
  unfold open? at h
  dsimp only at h
  split at h
  · cases h
  rcases Option.or_eq_some_iff.mp h with hnote | ⟨-, h⟩
  · exact keeps_openNote? hnote
  split at h
  · split at h
    · cases h
    · obtain ⟨rfl, -⟩ := Prod.mk.inj (Option.some.inj h)
      exact keeps_openItem _ _ _ d
  · split at h
    · obtain ⟨rfl, -⟩ := Prod.mk.inj (Option.some.inj h)
      exact keeps_openQuote d
    · cases h

theorem keeps_openAll (d : Draft) (c : Cursor) (behind : List Line) :
    Keeps d (d.openAll c behind).2.1 := by
  fun_induction openAll d c behind with
  | case1 d c behind d' left used hopen hless _ d'' _ _ heq ih =>
      rw [heq] at ih
      exact (keeps_open? hopen).trans ih
  | case2 d c behind d' left used hopen hless => exact keeps_open? hopen
  | case3 d c behind hopen => exact .refl d

/-! ## Blocks of text -/

theorem keeps_readFenced (d : Draft) (f : Fence) (indent : Nat) (c : Cursor)
    (behind : List Line) : Keeps d (d.readFenced f indent c behind).1 :=
  keeps_add d _

theorem keeps_readIndented (d : Draft) (c : Cursor) (behind : List Line) :
    Keeps d (d.readIndented c behind).1 := by
  unfold readIndented
  dsimp only
  apply keeps_add_of_same <;> rfl

theorem keeps_readMarkup (d : Draft) (closer : Option (List Char)) (indent : Nat) (c : Cursor)
    (behind : List Line) : Keeps d (d.readMarkup closer indent c behind).1 :=
  keeps_add d _

theorem keeps_readTable (d : Draft) (alignments : List Alignment) (head : List Char)
    (behind : List Line) : Keeps d (d.readTable alignments head behind).1 := by
  unfold readTable
  dsimp only
  apply keeps_add_of_same <;> rfl

theorem keeps_readParagraph (d : Draft) (glyphs : List Glyph) (c : Cursor)
    (behind : List Line) : Keeps d (d.readParagraph glyphs c behind).1 := by
  unfold readParagraph
  split
  · exact keeps_readTable d _ _ _
  · dsimp only
    apply keeps_add_of_same <;> rfl

theorem keeps_readProse (d : Draft) (glyphs : List Glyph) (c : Cursor) (behind : List Line) :
    Keeps d (d.readProse glyphs c behind).1 := by
  fun_induction readProse d glyphs c behind with
  | case1 => exact keeps_readParagraph _ _ _ _
  | case2 => exact .of_same rfl rfl
  | case3 => exact .of_same rfl rfl
  | case4 d glyphs c behind text label target left _ d' used l rest _ depth c' _ indent start _ _
      d'' count heq ih =>
      rw [heq] at ih
      have hsame : Keeps d d' := .of_same rfl rfl
      exact hsame.trans ih

theorem keeps_readText (d : Draft) (c : Cursor) (behind : List Line) :
    Keeps d (d.readText c behind).1 := by
  refine (keeps_finishList d).trans ?_
  unfold readText
  dsimp only
  split
  · exact keeps_readIndented _ _ _
  split
  · exact keeps_readMarkup _ _ _ _ _
  split
  · exact keeps_add _ _
  split
  · exact keeps_add _ _
  split
  · exact keeps_readFenced _ _ _ _ _
  · exact keeps_readProse _ _ _ _

/-- **Reading a line** loses no code. -/
theorem keeps_readLine (d : Draft) (l : Line) (behind : List Line) :
    Keeps d (d.readLine l behind).1 := by
  have hopened := (keeps_closeTo (d.follow l).1 d).trans
    (keeps_openAll (d.closeTo (d.follow l).1) (d.follow l).2 behind)
  unfold readLine
  dsimp only
  split
  · split
    · exact hopened.trans (.of_same rfl rfl)
    · exact hopened.trans (keeps_blankLine _)
  · exact hopened.trans (keeps_readText _ _ _)

/-- **Reading all lines** loses no code. -/
theorem keeps_read (d : Draft) (lines : List Line) : Keeps d (d.read lines) := by
  fun_induction read d lines with
  | case1 d => exact .refl d
  | case2 d l rest d' count heq ih =>
      have hline := keeps_readLine d l rest
      rw [heq] at hline
      exact hline.trans ih

/-! ## The finished document -/

theorem length_spine_add (d : Draft) (b : RawBlock) :
    (d.add b).spine.length = d.spine.length := by
  unfold add
  split
  · rename_i f outer hspine
    rw [hspine]
    rfl
  · rfl

theorem length_spine_addItem (d : Draft) (blocks : List RawBlock) :
    (d.addItem blocks).spine.length = d.spine.length := by
  unfold addItem
  split
  · rename_i hspine
    rw [hspine]
    rfl
  · rfl

theorem length_spine_close (d : Draft) : d.close.spine.length = d.spine.length - 1 := by
  unfold close
  split
  · rename_i hspine
    rw [hspine]
    rfl
  · rename_i f outer hspine
    rw [hspine]
    cases f with
    | item indent done => exact length_spine_addItem _ _
    | quote done => exact length_spine_add _ _
    | list mark isLoose items => exact length_spine_add _ _
    | note label done => exact length_spine_add _ _

/-- **In the end** no block is open. -/
theorem spine_closeTo_zero (d : Draft) : (d.closeTo 0).spine = [] := by
  have hrepeat : ∀ n d, (Nat.repeat close n d).spine.length = d.spine.length - n := by
    intro n d
    induction n with
    | zero => rfl
    | succ n ih => rw [Nat.repeat, length_spine_close, ih, Nat.sub_sub]
  apply List.eq_nil_of_length_eq_zero
  rw [closeTo, hrepeat, Nat.sub_zero, Nat.sub_self]

/-- **What a draft holds** is in the document that it becomes. -/
theorem exists_within_finish (hd : Nested d.spine) (h : d.Holds info text) :
    ∃ b ∈ d.finish, b.Within info text := by
  obtain ⟨b, hb, hwithin⟩ := (keeps_closeTo 0 d).holds info text hd h
  refine ⟨b, List.mem_reverse.mpr ?_, hwithin⟩
  unfold blocks at hb
  rwa [spine_closeTo_zero, List.flatMap_nil, List.append_nil] at hb

end Draft

/-! ## Code in a document -/

namespace Block

variable {ι τ : Type} {info text : String} {f : ι → StateM τ (List Inline)} {b : Block ι}

theorem mem_allInserts {i : Insert} {b : Block (List Inline)} {bs : List (Block (List Inline))}
    (hb : b ∈ bs) (hi : i ∈ b.inserts) : i ∈ allInserts bs := by
  induction bs with
  | nil => cases hb
  | cons b' rest ih =>
      rw [allInserts, List.mem_append]
      rcases List.mem_cons.mp hb with rfl | hrest
      · exact Or.inl hi
      · exact Or.inr (ih hrest)

theorem mem_itemInserts {i : Insert} {item : List (Block (List Inline))}
    {items : List (List (Block (List Inline)))} (hitem : item ∈ items)
    (hi : i ∈ allInserts item) : i ∈ itemInserts items := by
  induction items with
  | nil => cases hitem
  | cons item' rest ih =>
      rw [itemInserts, List.mem_append]
      rcases List.mem_cons.mp hitem with rfl | hrest
      · exact Or.inl hi
      · exact Or.inr (ih hrest)

/-- The blocks are changed one by one, each from some state. -/
theorem exists_mem_mapAllM {bs : List (Block ι)} (hb : b ∈ bs) (s : τ) :
    ∃ s', (b.mapM f s').1 ∈ (mapAllM f bs s).1 := by
  induction bs generalizing s with
  | nil => cases hb
  | cons b' rest ih =>
      rcases List.mem_cons.mp hb with rfl | hrest
      · exact ⟨s, List.mem_cons_self⟩
      · obtain ⟨s', hmem⟩ := ih hrest (b'.mapM f s).2
        exact ⟨s', List.mem_cons_of_mem _ hmem⟩

theorem exists_mem_mapItemsM {items : List (List (Block ι))} {item : List (Block ι)}
    (hitem : item ∈ items) (s : τ) :
    ∃ s', (mapAllM f item s').1 ∈ (mapItemsM f items s).1 := by
  induction items generalizing s with
  | nil => cases hitem
  | cons item' rest ih =>
      rcases List.mem_cons.mp hitem with rfl | hrest
      · exact ⟨s, List.mem_cons_self⟩
      · obtain ⟨s', hmem⟩ := ih hrest (mapAllM f item' s).2
        exact ⟨s', List.mem_cons_of_mem _ hmem⟩

/-- **Code is no text**: it stays when the text of a document is read. -/
theorem Within.mem_inserts (h : b.Within info text) (s : τ) :
    .block info text ∈ (b.mapM f s).1.inserts := by
  induction h generalizing s with
  | code => exact List.mem_singleton_self _
  | quote hb _ ih =>
      obtain ⟨s', hmem⟩ := exists_mem_mapAllM (f := f) hb s
      exact mem_allInserts hmem (ih s')
  | note hb _ ih =>
      obtain ⟨s', hmem⟩ := exists_mem_mapAllM (f := f) hb s
      exact mem_allInserts hmem (ih s')
  | item hitem hb _ ih =>
      obtain ⟨s', hmem⟩ := exists_mem_mapItemsM (f := f) hitem s
      obtain ⟨s'', hmem'⟩ := exists_mem_mapAllM (f := f) hb s'
      exact mem_itemInserts hmem (mem_allInserts hmem' (ih s''))

end Block

/-- **Code that has been read** is in the document. -/
theorem mem_codeBlocks_of_holds {document info text : String}
    (hd : Nested (Draft.read {} (linesOf document.toList)).spine)
    (h : (Draft.read {} (linesOf document.toList)).Holds info text) :
    (info, text) ∈ codeBlocks (parse document) := by
  obtain ⟨b, hb, hwithin⟩ := Draft.exists_within_finish hd h
  obtain ⟨s, hmem⟩ := Block.exists_mem_mapAllM hb (max document.utf8ByteSize leastBudget)
  exact List.mem_filterMap.mpr ⟨_, Block.mem_allInserts hmem (hwithin.mem_inserts s), rfl⟩

end CodeFence.Markdown
