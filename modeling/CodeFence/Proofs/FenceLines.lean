import CodeFence.Proofs.DraftGrowth

/-!
# Lines that begin fenced code

A fence may stand anywhere in a document: behind what has been read, behind the
marks of blocks that its line goes on with or opens, and behind less than four
spaces.  Wherever it does, the document has a block of code whose info string is
what stands behind the fence, once its escapes and references are resolved.

* `Draft.Comes` — reading comes to some lines, with some draft;
* `Draft.enter` — what is left of a line behind the marks of blocks;
* `Fenced` — a fence stands in a document;
* `exists_mem_codeBlocks_of_fenced` — the block of code that it begins.
-/

namespace CodeFence.Markdown

namespace Draft

variable {d d' : Draft} {lines lines' : List Line}

/-- Reading lines comes to the draft `d'`, with the lines `lines'` left. -/
inductive Comes : Draft → List Line → Draft → List Line → Prop
  | here (d : Draft) (lines : List Line) : Comes d lines d lines
  | line {d : Draft} {l : Line} {rest : List Line} {d' : Draft} {lines' : List Line}
      (h : Comes (d.readLine l rest).1 (rest.drop (d.readLine l rest).2) d' lines') :
      Comes d (l :: rest) d' lines'

/-- What is to be read of a line behind the marks of the open blocks that it goes on
with and of those that it opens: the draft, the rest of the line, and the lines behind
it. -/
def enter (d : Draft) (l : Line) (behind : List Line) : Draft × Cursor × List Line :=
  let (depth, c) := d.follow l
  let (_, d, c, used) := (d.closeTo depth).openAll c behind
  (d, c, behind.drop used)

theorem read_cons (d : Draft) (l : Line) (rest : List Line) :
    d.read (l :: rest) = (d.readLine l rest).1.read (rest.drop (d.readLine l rest).2) := by
  rw [read]

theorem Comes.read_eq (h : Comes d lines d' lines') : d.read lines = d'.read lines' := by
  induction h with
  | here => rfl
  | line _ ih => rw [read_cons, ih]

theorem Comes.keeps (h : Comes d lines d' lines') : Keeps d d' := by
  induction h with
  | here d lines => exact .refl d
  | line _ ih => exact (keeps_readLine _ _ _).trans ih

/-- A line of which something is left is read as a block of text. -/
theorem readLine_of_not_blank {l : Line} {behind : List Line}
    (h : (d.enter l behind).2.1.isBlank = false) :
    (d.readLine l behind).1 =
      ((d.enter l behind).1.readText (d.enter l behind).2.1 (d.enter l behind).2.2).1 := by
  unfold enter at h
  dsimp only at h
  unfold readLine enter
  dsimp only
  rw [h]
  rfl

end Draft

/-! ## Cursors -/

theorem Cursor.rest_readSpaces_suffix (n : Nat) (c : Cursor) :
    (c.readSpaces n).2.rest <:+ c.rest := by
  fun_induction Cursor.readSpaces n c with
  | case1 c => exact List.suffix_refl _
  | case2 c n one spaces h ih => exact ih _
  | case3 c n one rest hrest _ ih =>
      rw [hrest]
      exact (ih _).trans (List.suffix_cons ' ' rest)
  | case4 c n one rest hrest _ width ih =>
      rw [hrest]
      exact (ih _).trans (List.suffix_cons '\t' rest)
  | case5 c n => exact List.suffix_refl _

/-- What is left of a line stands in front of what is left up to the newline. -/
theorem Cursor.rest_prefix_toNewline (c : Cursor) (behind : List Line) :
    c.rest <+: (c.toNewline behind).1 := by
  unfold Cursor.toNewline Markdown.toNewline
  split
  · exact List.prefix_append _ _
  · split <;> exact List.prefix_append _ _

/-- A fence is made of backquotes or tildes. -/
theorem mark_of_fence? {text : List Char} {f : Fence} (h : fence? text = some f) :
    text.head? = some f.mark ∧ (f.mark = '\x60' ∨ f.mark = '~') := by
  unfold fence? at h
  split at h
  · rename_i c rest
    dsimp only at h
    split at h
    · rename_i hc
      split at h
      · cases h
        exact ⟨rfl, Or.inl hc⟩
      · cases h
    · split at h
      · rename_i hc
        cases h
        exact ⟨rfl, Or.inr hc.1⟩
      · cases h
  · cases h

/-! ## Fences in a document -/

/-- What is left of a line, up to the newline, is a text behind less than four spaces,
and it is not only the end of the line. -/
structure Cursor.Shows (c : Cursor) (behind : List Line) (text : List Char) : Prop where
  indent : (c.readSpaces 4).1 < 4
  rest_ne : (c.readSpaces 4).2.rest ≠ []
  text_eq : ((c.readSpaces 4).2.toNewline behind).1 = text

/-- A text stands in a document where a block may begin: reading comes to a line that
shows it behind the marks of blocks. -/
def Fenced (document : String) (text : List Char) : Prop :=
  ∃ d l behind, Draft.Comes {} (linesOf document.toList) d (l :: behind) ∧
    (d.enter l behind).2.1.Shows (d.enter l behind).2.2 text

namespace Cursor.Shows

variable {c : Cursor} {behind : List Line} {text : List Char} {f : Fence}

/-- Of a line that shows a fence, a mark of the fence is left. -/
theorem exists_cons (h : c.Shows behind text) (hfence : fence? text = some f) :
    ∃ rest, (c.readSpaces 4).2.rest = f.mark :: rest := by
  obtain ⟨a, rest, hcons⟩ := List.exists_cons_of_ne_nil h.rest_ne
  obtain ⟨more, hmore⟩ := (c.readSpaces 4).2.rest_prefix_toNewline behind
  have hhead := (mark_of_fence? hfence).1
  rw [← h.text_eq, ← hmore, hcons] at hhead
  exact ⟨rest, by rw [hcons, Option.some.inj hhead]⟩

theorem isBlank_eq_false (h : c.Shows behind text) (hfence : fence? text = some f) :
    c.isBlank = false := by
  obtain ⟨rest, hrest⟩ := h.exists_cons hfence
  rw [Cursor.isBlank, List.all_eq_false]
  refine ⟨f.mark, (rest_readSpaces_suffix 4 c).mem ?_, ?_⟩
  · rw [hrest]
    exact List.mem_cons_self
  · rcases (mark_of_fence? hfence).2 with h | h <;> rw [h] <;> decide

/-- **A fence is read as fenced code**, and as nothing else. -/
theorem readText_eq (h : c.Shows behind text) (hfence : fence? text = some f) (d : Draft) :
    d.readText c behind =
      d.finishList.readFenced f (c.readSpaces 4).1 (c.readSpaces 4).2 behind := by
  obtain ⟨rest, hrest⟩ := h.exists_cons hfence
  have hmark := (mark_of_fence? hfence).2
  have hmarkup : (Text.after? ['<'] (c.readSpaces 4).2.rest).bind Draft.markupStart? = none := by
    rw [hrest]
    rcases hmark with h | h <;> rw [h] <;> rfl
  have hrule : isRule (c.readSpaces 4).2.rest = false := by
    rw [hrest]
    rcases hmark with h | h <;> rw [h] <;> rfl
  have hheading : headingLevel? (c.readSpaces 4).2.rest = none := by
    rw [hrest]
    rcases hmark with h | h <;> rw [h] <;> rfl
  unfold Draft.readText
  dsimp only
  rw [if_neg (Nat.ne_of_lt h.indent), hmarkup, hrule, hheading, h.text_eq, hfence]
  rfl

end Cursor.Shows

/-- **A fence begins a block of code**, wherever it stands. -/
theorem exists_mem_codeBlocks_of_fenced {document : String} {text : List Char} {f : Fence}
    (h : Fenced document text) (hfence : fence? text = some f) :
    ∃ body, (f.info text, body) ∈ codeBlocks (parse document) := by
  obtain ⟨d, l, behind, hcomes, hshows⟩ := h
  -- the line is read as fenced code, which is added to what was there
  obtain ⟨body, hline⟩ : ∃ body, (d.readLine l behind).1 =
      (d.enter l behind).1.finishList.add (.code (f.info text) body) := by
    rw [Draft.readLine_of_not_blank (hshows.isBlank_eq_false hfence),
      hshows.readText_eq hfence, ← hshows.text_eq]
    exact ⟨_, rfl⟩
  have hbefore : Nested d.spine := hcomes.keeps.nested trivial
  have hnested : Nested (d.readLine l behind).1.spine :=
    (Draft.keeps_readLine d l behind).nested hbefore
  have hholds : (d.readLine l behind).1.Holds (f.info text) body := by
    rw [hline]
    exact Draft.holds_add_code _ _ _
  -- and nothing is lost up to the end
  have hafter := Draft.keeps_read (d.readLine l behind).1 (behind.drop (d.readLine l behind).2)
  refine ⟨body, mem_codeBlocks_of_holds ?_ ?_⟩
  · rw [hcomes.read_eq, Draft.read_cons]
    exact hafter.nested hnested
  · rw [hcomes.read_eq, Draft.read_cons]
    exact hafter.holds _ _ hnested hholds

end CodeFence.Markdown
