import CodeFence.Markdown.Writer
import CodeFence.Proofs.MentionedNotes

/-!
# Writing events is writing the document

However a document is delivered, its events are written as the same text, and that is
the text of the document itself.  A writer that goes through the events of a piece of
text is in the end as it was; through those of a block, it is again outside of any
image, and the table that it remembers does not matter any more.

* `Part.Same` — parts that are written as the same text, wherever they stand;
* `Writer.Goes` — what becomes of a writer that goes through events, and what it writes;
* `Writer.Describes` — events that describe an image;
* `Writer.WritesText`, `Writer.Writes` — events that are written as given parts;
* `Writer.goes_cells`, `Writer.goes_row`, `Writer.goes_rows` — the rows of a table;
* `eventsToHtml_eq` — the events of a document are written as the document.
-/

namespace CodeFence.Markdown

/-! ## Parts -/

namespace Part

variable {ps qs ps' qs' : List Part}

/-- The text that parts make behind a text that ends with `last`. -/
def written (last : Option Char) (parts : List Part) : List Char :=
  (writeFrom last parts).flatten

theorem written_append (last : Option Char) (ps qs : List Part) :
    written last (ps ++ qs) =
      written last ps ++ written ((written last ps).getLast?.or last) qs := by
  induction ps generalizing last with
  | nil => rfl
  | cons p ps ih =>
      have hfirst : ∀ rest, written last (p :: rest) =
          p.chars last ++ written ((p.chars last).getLast?.or last) rest := fun _ => rfl
      rw [List.cons_append, hfirst, hfirst, ih, List.append_assoc, List.getLast?_append,
        Option.or_assoc]

/-- Parts that are written as the same text, whatever stands before them. -/
def Same (ps qs : List Part) : Prop :=
  ∀ last, written last ps = written last qs

theorem Same.refl (ps : List Part) : Same ps ps :=
  fun _ => rfl

theorem Same.append (h : Same ps qs) (h' : Same ps' qs') : Same (ps ++ ps') (qs ++ qs') := by
  intro last
  rw [written_append, written_append, h last, h' _]

/-- Pieces of a text are written as the text. -/
theorem same_pieces {part : String → Part} {f : Char → List Char}
    (h : ∀ last s, (part s).chars last = s.toList.flatMap f) (pieces : List String) :
    Same (pieces.map part) [part (String.join pieces)] := by
  have hwritten : ∀ last, written last (pieces.map part) =
      (String.join pieces).toList.flatMap f := by
    induction pieces with
    | nil => exact fun _ => rfl
    | cons piece pieces ih =>
        intro last
        have hfirst : written last ((piece :: pieces).map part) =
            (part piece).chars last ++ written _ (pieces.map part) := rfl
        rw [hfirst, ih, h, String.join_cons, String.toList_append, List.flatMap_append]
  intro last
  have hwhole : written last [part (String.join pieces)] =
      (part (String.join pieces)).chars last ++ [] := rfl
  rw [hwritten, hwhole, List.append_nil, h]

theorem same_texts (pieces : List String) :
    Same (pieces.map .text) [.text (String.join pieces)] :=
  same_pieces (fun _ _ => rfl) pieces

theorem same_markups (pieces : List String) :
    Same (pieces.map .markup) [.markup (String.join pieces)] :=
  @same_pieces .markup (fun c => [c]) (fun _ s => (List.flatMap_singleton' s.toList).symm) pieces

end Part

open Part (Same)

namespace Writer

variable {number : String → String} {w w' w'' : Writer} {es fs : List Event}
  {parts parts' front back : List Part} {P Q : List Event → Prop}

/-! ## Going through events -/

theorem run_append (number : String → String) (w : Writer) (es fs : List Event) :
    run number w (es ++ fs) =
      ((run number (run number w es).1 fs).1,
        (run number w es).2 ++ (run number (run number w es).1 fs).2) := by
  have hcons : ∀ w e es, run number w (e :: es) =
      ((run number (w.step number e).1 es).1,
        (w.step number e).2 ++ (run number (w.step number e).1 es).2) := fun _ _ _ => rfl
  induction es generalizing w with
  | nil => rfl
  | cons e es ih => rw [List.cons_append, hcons, ih, hcons, List.append_assoc]

/-- A writer that goes through events becomes another one, and writes the same as
given parts. -/
def Goes (number : String → String) (w : Writer) (es : List Event) (w' : Writer)
    (parts : List Part) : Prop :=
  (run number w es).1 = w' ∧ Same (run number w es).2 parts

namespace Goes

theorem nil (number : String → String) (w : Writer) : Goes number w [] w [] :=
  ⟨rfl, .refl []⟩

theorem append (h : Goes number w es w' parts) (h' : Goes number w' fs w'' parts') :
    Goes number w (es ++ fs) w'' (parts ++ parts') := by
  obtain ⟨rfl, hparts⟩ := h
  obtain ⟨rfl, hparts'⟩ := h'
  rw [Goes, run_append]
  exact ⟨rfl, hparts.append hparts'⟩

theorem of_step {e : Event} (h : w.step number e = (w', parts)) :
    Goes number w [e] w' parts := by
  have hrun : run number w [e] = ((w.step number e).1, (w.step number e).2 ++ []) := rfl
  rw [Goes, hrun, h, List.append_nil]
  exact ⟨rfl, .refl parts⟩

/-- An event that is in no image. -/
theorem outside {e : Event} (hw : w.image = none) (h : w.outside number e = (w', parts)) :
    Goes number w [e] w' parts :=
  of_step (by simp only [step, hw, h])

/-- An event that is in an image. -/
theorem inside {e : Event} {i : OpenImage} (hw : w.image = some i)
    (h : w.inside number i e = (w', parts)) : Goes number w [e] w' parts :=
  of_step (by simp only [step, hw, h])

theorem around {opening : Opening} {closing : Closing}
    (hstart : Goes number w [.start opening] w' front) (h : Goes number w' es w'' parts)
    {last : Writer} (hstop : Goes number w'' [.stop closing] last back) :
    Goes number w (Event.around opening closing es) last (front ++ parts ++ back) :=
  (hstart.append h).append hstop

theorem same (h : Goes number w es w' parts) (hsame : Same parts parts') :
    Goes number w es w' parts' :=
  ⟨h.1, fun last => (h.2 last).trans (hsame last)⟩

end Goes

/-! ## Descriptions of images -/

/-- Events that add a text to the description of an image. -/
def Describes (number : String → String) (es : List Event) (s : String) : Prop :=
  ∀ w i, w.image = some i → Goes number w es { w with image := some (i.add s) } []

namespace Describes

variable {s t : String}

theorem nil : Describes number [] "" := by
  intro w i hw
  have hsame : i.add "" = i := by
    rw [OpenImage.add, String.append_empty]
  rw [hsame, ← hw]
  exact .nil number w

theorem append (h : Describes number es s) (h' : Describes number fs t) :
    Describes number (es ++ fs) (s ++ t) := by
  intro w i hw
  have hboth := (h w i hw).append (h' { w with image := some (i.add s) } (i.add s) rfl)
  rwa [OpenImage.add, OpenImage.add, String.append_assoc] at hboth

theorem single {e : Event} (h : ∀ i : OpenImage, i.take? number e = some (i.add s)) :
    Describes number [e] s := by
  intro w i hw
  apply Goes.inside hw
  rw [Writer.inside, h i]

theorem pieces (pieces : List String) :
    Describes number (pieces.map .text) (String.join pieces) := by
  induction pieces with
  | nil => exact nil
  | cons piece pieces ih =>
      have hfirst : Describes number [.text piece] piece := single fun _ => rfl
      rw [String.join_cons]
      exact hfirst.append ih

/-- What sets text off does not show in a description. -/
theorem around {opening : Opening} {closing : Closing}
    (h : ∀ es, P es → Describes number es s) (hes : Around opening closing P es) :
    Describes number es s := by
  obtain ⟨inner, hinner, rfl⟩ := hes
  intro w i hw
  let deeper : OpenImage := { i with depth := i.depth + 1 }
  have hstart : Goes number w [.start opening] { w with image := some deeper } [] :=
    .inside hw rfl
  have hmiddle := h inner hinner { w with image := some deeper } deeper rfl
  have hstop : Goes number { w with image := some (deeper.add s) } [.stop closing]
      { w with image := some (i.add s) } [] := .inside rfl rfl
  exact hstart.around hmiddle hstop

theorem both (hP : ∀ es, P es → Describes number es s) (hQ : ∀ es, Q es → Describes number es t)
    (hes : Then P Q es) : Describes number es (s ++ t) := by
  obtain ⟨front, back, hfront, hback, rfl⟩ := hes
  exact append (hP front hfront) (hQ back hback)

end Describes

mutual

/-- **The description of an image** is the plain text inside it. -/
theorem describes_of_delivered (i : Inline) {es : List Event} (h : i.Delivered es) :
    Describes number es (i.plainText number) := by
  have hleaf : ∀ e s, (∀ i : OpenImage, i.take? number e = some (i.add s)) → es = [e] →
      Describes number es s := by
    intro e s htake heq
    rw [heq]
    exact .single htake
  cases i with
  | text s =>
      obtain ⟨pieces, rfl, rfl⟩ := h
      exact .pieces pieces
  | code s => exact hleaf _ _ (fun _ => rfl) h
  | html raw => exact hleaf _ _ (fun _ => rfl) h
  | softBreak => exact hleaf _ _ (fun _ => rfl) h
  | hardBreak => exact hleaf _ _ (fun _ => rfl) h
  | task isDone => exact hleaf _ _ (fun _ => rfl) h
  | note label => exact hleaf _ _ (fun _ => rfl) h
  | styled style content => exact .around (fun _ => describes_of_allDelivered content) h
  | link target content => exact .around (fun _ => describes_of_allDelivered content) h
  | image target content => exact .around (fun _ => describes_of_allDelivered content) h

theorem describes_of_allDelivered (content : List Inline) {es : List Event}
    (h : Inline.AllDelivered content es) :
    Describes number es (Inline.allPlainText number content) := by
  cases content with
  | nil =>
      obtain rfl : es = [] := h
      exact .nil
  | cons i rest =>
      exact .both (fun _ => describes_of_delivered i) (fun _ => describes_of_allDelivered rest) h

end

/-! ## Text -/

/-- Events that are written as given parts and leave the writer as it was. -/
def WritesText (number : String → String) (es : List Event) (parts : List Part) : Prop :=
  ∀ w, w.image = none → Goes number w es w parts

namespace WritesText

theorem nil : WritesText number [] [] :=
  fun w _ => .nil number w

theorem single {e : Event} (h : ∀ w : Writer, w.outside number e = (w, parts)) :
    WritesText number [e] parts :=
  fun w hw => .outside hw (h w)

theorem both (hP : ∀ es, P es → WritesText number es parts)
    (hQ : ∀ es, Q es → WritesText number es parts') (hes : Then P Q es) :
    WritesText number es (parts ++ parts') := by
  obtain ⟨front, back, hfront, hback, rfl⟩ := hes
  exact fun w hw => (hP front hfront w hw).append (hQ back hback w hw)

/-- Text that is delivered in pieces is written as the text. -/
theorem pieces {piece : String → Event} {part : String → Part}
    (hstep : ∀ (w : Writer) s, w.outside number (piece s) = (w, [part s]))
    (hsame : ∀ pieces : List String, Same (pieces.map part) [part (String.join pieces)])
    (pieces : List String) :
    WritesText number (pieces.map piece) [part (String.join pieces)] := by
  have hmap : ∀ w : Writer, w.image = none →
      Goes number w (pieces.map piece) w (pieces.map part) := by
    intro w hw
    induction pieces with
    | nil => exact .nil number w
    | cons s pieces ih =>
        have hfirst : Goes number w [piece s] w [part s] := .outside hw (hstep w s)
        exact hfirst.append ih
  exact fun w hw => (hmap w hw).same (hsame pieces)

/-- What is written around a text is the same for every writer. -/
theorem around {opening : Opening} {closing : Closing}
    (hopening : ∀ w : Writer, w.opened number opening = (w, front))
    (hclosing : ∀ w : Writer, w.closed closing = (w, back))
    (h : ∀ es, P es → WritesText number es parts) (hes : Around opening closing P es) :
    WritesText number es (front ++ parts ++ back) := by
  obtain ⟨inner, hinner, rfl⟩ := hes
  intro w hw
  have hstart : Goes number w [.start opening] w front := .outside hw (hopening w)
  have hstop : Goes number w [.stop closing] w back := .outside hw (hclosing w)
  exact hstart.around (h inner hinner w hw) hstop

/-- An image is written with its description. -/
theorem image {target : Target} {s : String} (h : ∀ es, P es → Describes number es s)
    (hes : Around (.image target) .image P es) :
    WritesText number es (Inline.imageStart target ++
      .value s :: Inline.titleParts target.title ++ [.markup "\" />"]) := by
  obtain ⟨inner, hinner, rfl⟩ := hes
  intro w hw
  let blank : OpenImage := { title := target.title }
  have hclosed : { w with image := none } = w := by rw [← hw]
  have hstart : Goes number w [.start (.image target)] { w with image := some blank }
      (Inline.imageStart target) := .outside hw rfl
  have hmiddle := h inner hinner { w with image := some blank } blank rfl
  have hstop : Goes number { w with image := some (blank.add s) } [.stop .image] w
      (.value s :: Inline.titleParts target.title ++ [.markup "\" />"]) := by
    apply Goes.inside rfl
    change ({ w with image := none }, Part.value ("" ++ s) :: _ ++ _) = _
    rw [hclosed, String.empty_append]
    rfl
  have hall := hstart.around hmiddle hstop
  rwa [List.append_nil, ← List.append_assoc] at hall

end WritesText

mutual

/-- **A piece of text** is written as such. -/
theorem writesText_of_delivered (i : Inline) {es : List Event} (h : i.Delivered es) :
    WritesText number es (i.parts number) := by
  have hleaf : ∀ e parts, (∀ w : Writer, w.outside number e = (w, parts)) → es = [e] →
      WritesText number es parts := by
    intro e parts hwrite heq
    rw [heq]
    exact .single hwrite
  cases i with
  | text s =>
      obtain ⟨pieces, rfl, rfl⟩ := h
      exact .pieces (fun _ _ => rfl) Part.same_texts pieces
  | code s => exact hleaf _ _ (fun _ => rfl) h
  | html raw => exact hleaf _ _ (fun _ => rfl) h
  | softBreak => exact hleaf _ _ (fun _ => rfl) h
  | hardBreak => exact hleaf _ _ (fun _ => rfl) h
  | task isDone => exact hleaf _ _ (fun _ => rfl) h
  | note label => exact hleaf _ _ (fun _ => rfl) h
  | styled style content =>
      exact .around (fun _ => rfl) (fun _ => rfl) (fun _ => writesText_of_allDelivered content) h
  | link target content =>
      exact .around (fun _ => rfl) (fun _ => rfl) (fun _ => writesText_of_allDelivered content) h
  | image target content => exact .image (fun _ => describes_of_allDelivered content) h

theorem writesText_of_allDelivered (content : List Inline) {es : List Event}
    (h : Inline.AllDelivered content es) :
    WritesText number es (Inline.allParts number content) := by
  cases content with
  | nil =>
      obtain rfl : es = [] := h
      exact .nil
  | cons i rest =>
      exact .both (fun _ => writesText_of_delivered i) (fun _ => writesText_of_allDelivered rest) h

end

/-! ## Tables -/

theorem goes_cells {cells : List (List Inline)} (hw : w.image = none)
    (h : Block.CellsDelivered cells es) :
    ∃ column, Goes number w es { w with column }
      (Block.rowPartsFrom number w.cellName w.alignments w.column cells) := by
  induction cells generalizing w es with
  | nil =>
      obtain rfl : es = [] := h
      exact ⟨w.column, .nil number w⟩
  | cons content rest ih =>
      obtain ⟨_, back, ⟨inner, hinner, rfl⟩, hback, rfl⟩ := h
      have hstart : Goes number w [.start .tableCell] w
          [.markup (Block.cellStart w.cellName w.alignments w.column)] := .outside hw rfl
      have hstop : Goes number w [.stop .tableCell] { w with column := w.column + 1 }
          [.markup ("</" ++ w.cellName ++ ">")] := .outside hw rfl
      have hcell := hstart.around (writesText_of_allDelivered content hinner w hw) hstop
      let next : Writer := { w with column := w.column + 1 }
      obtain ⟨column, hrest⟩ := ih (w := next) hw hback
      refine ⟨column, ?_⟩
      have hall := hcell.append hrest
      rwa [List.append_assoc _ _ (Block.rowPartsFrom ..)] at hall

theorem goes_row {row : List (List Inline)} (hw : w.image = none) (hbody : w.isInHead = false)
    (h : Around .tableRow .tableRow (Block.CellsDelivered row) es) :
    ∃ column, Goes number w es { w with column }
      (.markup "<tr>" :: Block.rowParts number "td" w.alignments row ++ [.markup "</tr>\n"]) := by
  obtain ⟨inner, hinner, rfl⟩ := h
  let first : Writer := { w with column := 0 }
  have hstart : Goes number w [.start .tableRow] first [.markup "<tr>"] := .outside hw rfl
  obtain ⟨column, hcells⟩ := goes_cells (w := first) hw hinner
  have hstop : Goes number { first with column } [.stop .tableRow] { first with column }
      [.markup "</tr>\n"] := .outside hw rfl
  have hname : first.cellName = "td" := by
    rw [cellName, hbody]
    rfl
  rw [hname] at hcells
  exact ⟨column, hstart.around hcells hstop⟩

theorem goes_rows {rows : List (List (List Inline))} (hw : w.image = none)
    (hbody : w.isInHead = false)
    (h : Each (fun row => Around .tableRow .tableRow (Block.CellsDelivered row)) rows es) :
    ∃ column, Goes number w es { w with column } (rows.flatMap fun row =>
      .markup "<tr>" :: Block.rowParts number "td" w.alignments row ++ [.markup "</tr>\n"]) := by
  induction rows generalizing w es with
  | nil =>
      obtain rfl : es = [] := h
      exact ⟨w.column, .nil number w⟩
  | cons row rest ih =>
      obtain ⟨front, back, hfront, hback, rfl⟩ := h
      obtain ⟨column, hfirst⟩ := goes_row hw hbody hfront
      let next : Writer := { w with column }
      obtain ⟨last, hrest⟩ := ih (w := next) hw hbody hback
      exact ⟨last, hfirst.append hrest⟩

/-! ## Blocks -/

/-- Events that are written as given parts, and leave the writer outside of images. -/
def Writes (number : String → String) (es : List Event) (parts : List Part) : Prop :=
  ∀ w, w.image = none → ∃ w', w'.image = none ∧ Goes number w es w' parts

theorem WritesText.writes (h : WritesText number es parts) : Writes number es parts :=
  fun w hw => ⟨w, hw, h w hw⟩

namespace Writes

theorem append (h : Writes number es parts) (h' : Writes number fs parts') :
    Writes number (es ++ fs) (parts ++ parts') := by
  intro w hw
  obtain ⟨w', hw', hfirst⟩ := h w hw
  obtain ⟨w'', hw'', hsecond⟩ := h' w' hw'
  exact ⟨w'', hw'', hfirst.append hsecond⟩

theorem both (hP : ∀ es, P es → Writes number es parts)
    (hQ : ∀ es, Q es → Writes number es parts') (hes : Then P Q es) :
    Writes number es (parts ++ parts') := by
  obtain ⟨front, back, hfront, hback, rfl⟩ := hes
  exact (hP front hfront).append (hQ back hback)

theorem around {opening : Opening} {closing : Closing}
    (hopening : ∀ w : Writer, w.opened number opening = (w, front))
    (hclosing : ∀ w : Writer, w.closed closing = (w, back))
    (h : ∀ es, P es → Writes number es parts) (hes : Around opening closing P es) :
    Writes number es (front ++ parts ++ back) := by
  obtain ⟨inner, hinner, rfl⟩ := hes
  have hstart : WritesText number [.start opening] front := .single hopening
  have hstop : WritesText number [.stop closing] back := .single hclosing
  exact (hstart.writes.append (h inner hinner)).append hstop.writes

/-- A table is written row by row, whatever table the writer remembers. -/
theorem table {alignments : List Alignment} {head : List (List Inline)}
    {rows : List (List (List Inline))} (h : (Block.table alignments head rows).Delivered es) :
    Writes number es ((Block.table alignments head rows).parts number) := by
  obtain ⟨_, ⟨_, back, ⟨inner, hinner, rfl⟩, hback, rfl⟩, rfl⟩ := h
  intro w hw
  let opened : Writer := { w with alignments }
  let inHead : Writer := { opened with isInHead := true, column := 0 }
  have htable : Goes number w [.start (.table alignments)] opened [.markup "<table>"] :=
    .outside hw rfl
  have hhead : Goes number opened [.start .tableHead] inHead [.markup "<thead><tr>"] :=
    .outside hw rfl
  obtain ⟨column, hcells⟩ : ∃ column, Goes number inHead inner { inHead with column }
      (Block.rowParts number "th" alignments head) := goes_cells (w := inHead) hw hinner
  let inBody : Writer := { inHead with isInHead := false, column }
  have hbody : Goes number { inHead with column } [.stop .tableHead] inBody
      [.markup "</tr></thead><tbody>\n"] := .outside hw rfl
  obtain ⟨last, hrows⟩ : ∃ last, Goes number inBody back { inBody with column := last }
      (rows.flatMap fun row => .markup "<tr>" :: Block.rowParts number "td" alignments row ++
        [.markup "</tr>\n"]) := goes_rows (w := inBody) hw rfl hback
  have hend : Goes number { inBody with column := last } [.stop .table]
      { inBody with column := last } [.markup "</tbody></table>\n"] := .outside hw rfl
  refine ⟨{ inBody with column := last }, hw,
    (htable.around ((hhead.around hcells hbody).append hrows) hend).same ?_⟩
  have htags := (Part.same_markups ["<table>", "<thead><tr>"]).append (Same.refl
    (Block.rowParts number "th" alignments head ++ .markup "</tr></thead><tbody>\n" ::
      (rows.flatMap fun row => .markup "<tr>" :: Block.rowParts number "td" alignments row ++
        [.markup "</tr>\n"]) ++ [.markup "</tbody></table>\n"]))
  simpa [Block.parts] using htags

end Writes

/-- Markup is written as it stands, in whatever pieces it comes. -/
theorem writes_html {raw : String} (h : Block.HtmlDelivered raw es) :
    Writes number es [.markup raw] := by
  obtain ⟨pieces, rfl, hpieces⟩ := h
  have hinner : WritesText number (pieces.map .html) [.markup (String.join pieces)] :=
    .pieces (fun _ _ => rfl) Part.same_markups pieces
  rcases hpieces with rfl | rfl
  · have haround : Around .html .html (· = pieces.map .html)
        (Event.around .html .html (pieces.map .html)) := around_of _ _ rfl
    have hall : WritesText number _ ([] ++ _ ++ []) :=
      .around (fun _ => rfl) (fun _ => rfl) (fun _ heq => heq ▸ hinner) haround
    exact hall.writes
  · exact hinner.writes

/-- A block of code is written as its text, in whatever pieces that comes. -/
theorem writes_code {info s : String} (h : Block.CodeDelivered info s es) :
    Writes number es ((Block.code info s).parts number) := by
  obtain ⟨kind, pieces, rfl, rfl, rfl⟩ := h
  have hinner : WritesText number (pieces.map .text) [.text (String.join pieces)] :=
    .pieces (fun _ _ => rfl) Part.same_texts pieces
  have haround : Around (.code kind) .code (· = pieces.map .text)
      (Event.around (.code kind) .code (pieces.map .text)) := around_of _ _ rfl
  have hall : WritesText number _ (Block.codeStart kind.info ++ _ ++ _) :=
    .around (fun _ => rfl) (fun _ => rfl) (fun _ heq => heq ▸ hinner) haround
  rw [List.append_assoc] at hall
  exact hall.writes

mutual

/-- **A block** is written as such. -/
theorem writes_of_delivered (b : Block (List Inline)) {es : List Event} (h : b.Delivered es) :
    Writes number es (b.parts number) := by
  have htext : ∀ content es, Inline.AllDelivered content es →
      Writes number es (Inline.allParts number content) :=
    fun content _ hes => (writesText_of_allDelivered content hes).writes
  cases b with
  | paragraph content => exact .around (fun _ => rfl) (fun _ => rfl) (htext content) h
  | plain content => exact htext content es h
  | heading level content => exact .around (fun _ => rfl) (fun _ => rfl) (htext content) h
  | rule =>
      obtain rfl : es = [.rule] := h
      exact (WritesText.single fun _ => rfl).writes
  | task isDone =>
      obtain rfl : es = [.task isDone] := h
      exact (WritesText.single fun _ => rfl).writes
  | code info s => exact writes_code h
  | html raw => exact writes_html h
  | quote children =>
      exact .around (fun _ => rfl) (fun _ => rfl) (fun _ => writes_of_allDelivered children) h
  | list start items =>
      exact .around (fun _ => rfl) (fun _ => rfl) (fun _ => writes_of_itemsDelivered items) h
  | table alignments head rows => exact .table h
  | footnote label children =>
      exact .around (fun _ => rfl) (fun _ => rfl) (fun _ => writes_of_allDelivered children) h

/-- **A document** is written as such. -/
theorem writes_of_allDelivered (document : List (Block (List Inline))) {es : List Event}
    (h : Block.AllDelivered document es) :
    Writes number es (Block.allParts number document) := by
  cases document with
  | nil =>
      obtain rfl : es = [] := h
      exact WritesText.nil.writes
  | cons b rest =>
      exact .both (fun _ => writes_of_delivered b) (fun _ => writes_of_allDelivered rest) h

theorem writes_of_itemsDelivered (items : List (List (Block (List Inline)))) {es : List Event}
    (h : Block.ItemsDelivered items es) : Writes number es (Block.itemParts number items) := by
  cases items with
  | nil =>
      obtain rfl : es = [] := h
      exact WritesText.nil.writes
  | cons item rest =>
      have hall := Writes.both (fun _ => .around (fun _ => rfl) (fun _ => rfl)
        fun _ => writes_of_allDelivered item) (fun _ => writes_of_itemsDelivered rest) h
      rwa [List.append_assoc] at hall

end

end Writer

/-- **Writing the events of a document** is writing the document, however it is
delivered. -/
theorem eventsToHtml_eq {document : List (Block (List Inline))} {es : List Event}
    (h : Block.AllDelivered document es) : eventsToHtml es = toHtml document := by
  have hlabels : es.filterMap Event.label? = Block.allLabels document :=
    Block.mentions_of_allDelivered document h
  have hwrites : Writer.Writes (noteNumber (Block.allLabels document)) es
      (Block.allParts (noteNumber (Block.allLabels document)) document) :=
    Writer.writes_of_allDelivered document h
  obtain ⟨w, hw, hrun, hparts⟩ := hwrites {} rfl
  unfold eventsToHtml toHtml
  rw [hlabels]
  dsimp only
  rw [hrun, Writer.finish, hw, Option.map_none, Option.getD_none, List.append_nil]
  exact congrArg String.ofList (hparts none)

end CodeFence.Markdown
