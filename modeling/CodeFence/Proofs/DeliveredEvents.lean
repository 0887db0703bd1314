import CodeFence.Markdown.Event
import CodeFence.Proofs.MarkdownInserts

/-!
# What a document is delivered as

The same document can be delivered in many ways: its text, its markup and the text of
a block of code may come in any pieces, and a block of code without an info string may
be fenced or indented.  All else is settled: what is opened is closed behind what it
holds, and everything comes once and in the order of the document.

* `Around`, `Then`, `Each` — sequences of events that are put together;
* `Inline.Delivered`, `Block.Delivered`, `Block.AllDelivered` — the events that a piece
  of text, a block or a document may be delivered as;
* `Block.allDelivered_allEvents` — its own events are such events;
* `codePieces` — the blocks of code in a sequence of events, with their pieces of text;
* `joined_codePieces` — each block of code comes once, and its pieces make up its text.
-/

namespace CodeFence.Markdown

/-! ## Sequences of events -/

/-- Events of which `P` holds, between an opening and a closing one. -/
def Around (opening : Opening) (closing : Closing) (P : List Event → Prop) (es : List Event) :
    Prop :=
  ∃ inner, P inner ∧ es = Event.around opening closing inner

/-- Events of which `P` holds, and behind them events of which `Q` holds. -/
def Then (P Q : List Event → Prop) (es : List Event) : Prop :=
  ∃ front back, P front ∧ Q back ∧ es = front ++ back

/-- Events for each of some things, one after the other. -/
def Each {α : Type} (P : α → List Event → Prop) : List α → List Event → Prop
  | [] => fun es => es = []
  | a :: as => Then (P a) (Each P as)

variable {α : Type} {P Q : List Event → Prop} {es : List Event}

theorem around_of (opening : Opening) (closing : Closing) (h : P es) :
    Around opening closing P (Event.around opening closing es) :=
  ⟨es, h, rfl⟩

theorem then_of {fs : List Event} (h : P es) (h' : Q fs) : Then P Q (es ++ fs) :=
  ⟨es, fs, h, h', rfl⟩

theorem each_flatMap {P : α → List Event → Prop} {f : α → List Event} (h : ∀ a, P a (f a))
    (as : List α) : Each P as (as.flatMap f) := by
  induction as with
  | nil => rfl
  | cons a as ih => exact then_of (h a) ih

/-! ## Documents -/

namespace Inline

mutual

/-- The events that a piece of text may be delivered as. -/
def Delivered : Inline → List Event → Prop
  | text s => fun es => ∃ pieces : List String, String.join pieces = s ∧ es = pieces.map .text
  | code s => (· = [.code s])
  | html raw => (· = [.inlineHtml raw])
  | softBreak => (· = [.softBreak])
  | hardBreak => (· = [.hardBreak])
  | task isDone => (· = [.task isDone])
  | note label => (· = [.note label])
  | styled style content => Around (.styled style) (.styled style) (AllDelivered content)
  | link target content => Around (.link target) .link (AllDelivered content)
  | image target content => Around (.image target) .image (AllDelivered content)

/-- The events that pieces of text may be delivered as. -/
def AllDelivered : List Inline → List Event → Prop
  | [] => (· = [])
  | i :: rest => Then i.Delivered (AllDelivered rest)

end

end Inline

namespace Block

/-- The events that the cells of a row may be delivered as. -/
def CellsDelivered : List (List Inline) → List Event → Prop :=
  Each fun content => Around .tableCell .tableCell (Inline.AllDelivered content)

/-- The events that a block of code may be delivered as. -/
def CodeDelivered (info s : String) (es : List Event) : Prop :=
  ∃ kind : CodeKind, ∃ pieces : List String, kind.info = info ∧ String.join pieces = s ∧
    es = Event.around (.code kind) .code (pieces.map .text)

/-- The events that markup between blocks may be delivered as.  Markup that stands for
a block of code comes without the events around it. -/
def HtmlDelivered (raw : String) (es : List Event) : Prop :=
  ∃ pieces : List String, String.join pieces = raw ∧
    (es = Event.around .html .html (pieces.map .html) ∨ es = pieces.map .html)

mutual

/-- The events that a block may be delivered as. -/
def Delivered : Block (List Inline) → List Event → Prop
  | paragraph content => Around .paragraph .paragraph (Inline.AllDelivered content)
  | plain content => Inline.AllDelivered content
  | heading level content => Around (.heading level) (.heading level) (Inline.AllDelivered content)
  | rule => (· = [.rule])
  | task isDone => (· = [.task isDone])
  | code info s => CodeDelivered info s
  | html raw => HtmlDelivered raw
  | quote children => Around .quote .quote (AllDelivered children)
  | list start items => Around (.list start) (.list start.isSome) (ItemsDelivered items)
  | table alignments head rows =>
    Around (.table alignments) .table
      (Then (Around .tableHead .tableHead (CellsDelivered head))
        (Each (fun row => Around .tableRow .tableRow (CellsDelivered row)) rows))
  | footnote label children => Around (.footnote label) .footnote (AllDelivered children)

/-- The events that blocks may be delivered as. -/
def AllDelivered : List (Block (List Inline)) → List Event → Prop
  | [] => (· = [])
  | b :: rest => Then b.Delivered (AllDelivered rest)

/-- The events that the items of a list may be delivered as. -/
def ItemsDelivered : List (List (Block (List Inline))) → List Event → Prop
  | [] => (· = [])
  | item :: rest => Then (Around .item .item (AllDelivered item)) (ItemsDelivered rest)

end

end Block

/-! ## The events of a document -/

theorem join_linePieces (cs : List Char) :
    String.join ((linePieces cs).map String.ofList) = String.ofList cs := by
  have hflatten : (linePieces cs).flatten = cs := by
    induction cs with
    | nil => rfl
    | cons c rest ih =>
        rw [linePieces]
        split
        · rw [List.flatten_cons, ih]
          rfl
        · cases hlines : linePieces rest with
          | nil =>
              rw [hlines] at ih
              rw [← ih]
              rfl
          | cons line lines =>
              rw [hlines] at ih
              rw [← ih]
              rfl
  refine String.toList_injective ?_
  rw [String.toList_join, String.toList_ofList, List.flatMap_map]
  simpa [List.flatMap_def] using hflatten

theorem join_singleton (s : String) : String.join [s] = s := by
  rw [String.join_cons, String.join_nil, String.append_empty]

namespace Inline

mutual

theorem delivered_events (i : Inline) : i.Delivered i.events := by
  cases i with
  | text s => exact ⟨[s], join_singleton s, rfl⟩
  | styled style content => exact around_of _ _ (allDelivered_allEvents content)
  | link target content => exact around_of _ _ (allDelivered_allEvents content)
  | image target content => exact around_of _ _ (allDelivered_allEvents content)
  | _ => rfl

theorem allDelivered_allEvents (content : List Inline) :
    AllDelivered content (allEvents content) := by
  cases content with
  | nil => rfl
  | cons i rest => exact then_of (delivered_events i) (allDelivered_allEvents rest)

end

end Inline

namespace Block

theorem cellsDelivered_cellEvents (cells : List (List Inline)) :
    CellsDelivered cells (cellEvents cells) :=
  each_flatMap (fun content => around_of _ _ (Inline.allDelivered_allEvents content)) cells

theorem codeDelivered_events (info s : String) : CodeDelivered info s (events (code info s)) := by
  have hinfo : (if info.isEmpty then CodeKind.indented else .fenced info).info = info := by
    split
    · rename_i hempty
      exact (String.isEmpty_iff.mp hempty).symm
    · rfl
  refine ⟨_, (linePieces s.toList).map String.ofList, hinfo, ?_, ?_⟩
  · rw [join_linePieces, String.ofList_toList]
  · rw [events, List.map_map]
    rfl

mutual

theorem delivered_events (b : Block (List Inline)) : b.Delivered b.events := by
  cases b with
  | paragraph content => exact around_of _ _ (Inline.allDelivered_allEvents content)
  | plain content => exact Inline.allDelivered_allEvents content
  | heading level content => exact around_of _ _ (Inline.allDelivered_allEvents content)
  | rule => rfl
  | task isDone => rfl
  | code info s => exact codeDelivered_events info s
  | html raw => exact ⟨[raw], join_singleton raw, Or.inl rfl⟩
  | quote children => exact around_of _ _ (allDelivered_allEvents children)
  | list start items => exact around_of _ _ (itemsDelivered_itemEvents items)
  | table alignments head rows =>
      refine around_of _ _ (then_of (around_of _ _ (cellsDelivered_cellEvents head)) ?_)
      exact each_flatMap (fun row => around_of _ _ (cellsDelivered_cellEvents row)) rows
  | footnote label children => exact around_of _ _ (allDelivered_allEvents children)

/-- **The events of a document** are events that it may be delivered as. -/
theorem allDelivered_allEvents (document : List (Block (List Inline))) :
    AllDelivered document (allEvents document) := by
  cases document with
  | nil => rfl
  | cons b rest => exact then_of (delivered_events b) (allDelivered_allEvents rest)

theorem itemsDelivered_itemEvents (items : List (List (Block (List Inline)))) :
    ItemsDelivered items (itemEvents items) := by
  cases items with
  | nil => rfl
  | cons item rest =>
      exact then_of (around_of _ _ (allDelivered_allEvents item)) (itemsDelivered_itemEvents rest)

end

end Block

/-! ## The blocks of code in events -/

/-- The value of a piece of text. -/
def Event.text? : Event → Option String
  | .text value => some value
  | _ => none

/-- The blocks of code in a sequence of events: the info string of each, and the pieces
of text up to the event that closes it. -/
def codePieces : List Event → List (String × List String)
  | [] => []
  | .start (.code kind) :: rest =>
    (kind.info, (rest.takeWhile (· ≠ .stop .code)).filterMap Event.text?) :: codePieces rest
  | _ :: rest => codePieces rest

/-- A block of code with its pieces put together. -/
def joined (block : String × List String) : String × String :=
  (block.1, String.join block.2)

/-- Events that hold given blocks of code, whatever follows. -/
def Holds (blocks : List (String × String)) (es : List Event) : Prop :=
  ∀ rest, (codePieces (es ++ rest)).map joined = blocks ++ (codePieces rest).map joined

namespace Holds

variable {blocks others : List (String × String)}

theorem nil : Holds [] [] :=
  fun _ => rfl

theorem append {fs : List Event} (h : Holds blocks es) (h' : Holds others fs) :
    Holds (blocks ++ others) (es ++ fs) := by
  intro rest
  rw [List.append_assoc, h, h', List.append_assoc]

/-- An event that opens no block of code holds none. -/
theorem single {e : Event} (he : ∀ kind, e ≠ .start (.code kind)) : Holds [] [e] := by
  intro rest
  rw [List.singleton_append, codePieces]
  · rfl
  · intro kind hkind
    exact he kind hkind

theorem of_forall {es : List Event} (h : ∀ e ∈ es, ∀ kind, e ≠ .start (.code kind)) :
    Holds [] es := by
  induction es with
  | nil => exact nil
  | cons e es ih =>
      exact (single (h e List.mem_cons_self)).append
        (ih fun e' he' => h e' (List.mem_cons_of_mem e he'))

theorem around {opening : Opening} {closing : Closing}
    (hopening : ∀ kind, opening ≠ .code kind) (h : ∀ es, P es → Holds blocks es)
    (hes : Around opening closing P es) : Holds blocks es := by
  obtain ⟨inner, hinner, rfl⟩ := hes
  have hstart : Holds [] [.start opening] := by
    apply single
    intro kind heq
    exact hopening kind (Event.start.inj heq)
  have hstop : Holds [] [.stop closing] := single fun kind heq => by cases heq
  have hall := (hstart.append (h inner hinner)).append hstop
  rwa [List.nil_append, List.append_nil] at hall

theorem both (hP : ∀ es, P es → Holds blocks es) (hQ : ∀ es, Q es → Holds others es)
    (hes : Then P Q es) : Holds (blocks ++ others) es := by
  obtain ⟨front, back, hfront, hback, rfl⟩ := hes
  exact (hP front hfront).append (hQ back hback)

theorem eachNone {P : α → List Event → Prop} (h : ∀ a es, P a es → Holds [] es) {as : List α}
    (hes : Each P as es) : Holds [] es := by
  induction as generalizing es with
  | nil =>
      obtain rfl : es = [] := hes
      exact nil
  | cons a as ih => exact both (h a) (fun _ => ih) hes

/-- A block of code holds itself, in whatever pieces its text comes. -/
theorem code {info s : String} (hes : Block.CodeDelivered info s es) : Holds [(info, s)] es := by
  obtain ⟨kind, pieces, rfl, rfl, rfl⟩ := hes
  intro rest
  have hpieces : ∀ pieces : List String,
      ((pieces.map Event.text ++ .stop .code :: rest).takeWhile (· ≠ .stop .code)).filterMap
        Event.text? = pieces := by
    intro pieces
    induction pieces with
    | nil => rfl
    | cons piece pieces ih =>
        rw [List.map_cons, List.cons_append, List.takeWhile_cons_of_pos (by simp),
          List.filterMap_cons]
        exact congrArg _ ih
  have htail : Holds [] (pieces.map Event.text ++ [.stop .code]) := by
    refine of_forall fun e he kind => ?_
    rcases List.mem_append.mp he with hpiece | hstop
    · obtain ⟨piece, -, rfl⟩ := List.mem_map.mp hpiece
      exact Event.noConfusion
    · rw [List.mem_singleton.mp hstop]
      exact Event.noConfusion
  have hrest := htail rest
  rw [List.append_assoc, List.singleton_append] at hrest
  rw [Event.around, List.append_assoc, List.cons_append, List.singleton_append, codePieces,
    List.map_cons, hrest, joined, hpieces]
  rfl

end Holds

namespace Inline

mutual

/-- No block of code is inside a line. -/
theorem code?_inserts (i : Inline) : i.inserts.filterMap Insert.code? = [] := by
  cases i with
  | styled style content => exact code?_allInserts content
  | link target content => exact code?_allInserts content
  | image target content => exact code?_allInserts content
  | _ => rfl

theorem code?_allInserts (content : List Inline) :
    (allInserts content).filterMap Insert.code? = [] := by
  cases content with
  | nil => rfl
  | cons i rest =>
      rw [allInserts, List.filterMap_append, code?_inserts i, code?_allInserts rest]
      rfl

end

mutual

theorem holds_of_delivered (i : Inline) {es : List Event} (h : i.Delivered es) :
    Holds [] es := by
  have hsingle : ∀ e : Event, (∀ kind, e ≠ .start (.code kind)) → es = [e] → Holds [] es := by
    intro e he heq
    rw [heq]
    exact .single he
  cases i with
  | text s =>
      obtain ⟨pieces, -, rfl⟩ := h
      refine .of_forall fun e he kind => ?_
      obtain ⟨piece, -, rfl⟩ := List.mem_map.mp he
      exact Event.noConfusion
  | styled style content =>
      exact .around (fun _ => Opening.noConfusion) (fun _ => holds_of_allDelivered content) h
  | link target content =>
      exact .around (fun _ => Opening.noConfusion) (fun _ => holds_of_allDelivered content) h
  | image target content =>
      exact .around (fun _ => Opening.noConfusion) (fun _ => holds_of_allDelivered content) h
  | code s => exact hsingle _ (fun _ => Event.noConfusion) h
  | html raw => exact hsingle _ (fun _ => Event.noConfusion) h
  | softBreak => exact hsingle _ (fun _ => Event.noConfusion) h
  | hardBreak => exact hsingle _ (fun _ => Event.noConfusion) h
  | task isDone => exact hsingle _ (fun _ => Event.noConfusion) h
  | note label => exact hsingle _ (fun _ => Event.noConfusion) h

theorem holds_of_allDelivered (content : List Inline) {es : List Event}
    (h : AllDelivered content es) : Holds [] es := by
  cases content with
  | nil =>
      obtain rfl : es = [] := h
      exact .nil
  | cons i rest =>
      exact .both (fun _ => holds_of_delivered i) (fun _ => holds_of_allDelivered rest) h

end

end Inline

namespace Block

theorem holds_of_cellsDelivered {cells : List (List Inline)} {es : List Event}
    (h : CellsDelivered cells es) : Holds [] es :=
  .eachNone (fun content _ => .around (fun _ => Opening.noConfusion)
    fun _ => Inline.holds_of_allDelivered content) h

theorem code?_cells (cells : List (List Inline)) :
    (cells.flatMap Inline.allInserts).filterMap Insert.code? = [] := by
  rw [List.filterMap_flatMap, List.flatMap_eq_nil_iff]
  exact fun content _ => Inline.code?_allInserts content

mutual

theorem holds_of_delivered (b : Block (List Inline)) {es : List Event} (h : b.Delivered es) :
    Holds (b.inserts.filterMap Insert.code?) es := by
  have htext : ∀ content es, Inline.AllDelivered content es →
      Holds ((Inline.allInserts content).filterMap Insert.code?) es := by
    intro content es hes
    rw [Inline.code?_allInserts]
    exact Inline.holds_of_allDelivered content hes
  cases b with
  | paragraph content => exact .around (fun _ => Opening.noConfusion) (htext content) h
  | plain content => exact htext content es h
  | heading level content => exact .around (fun _ => Opening.noConfusion) (htext content) h
  | rule =>
      obtain rfl : es = [.rule] := h
      exact .single fun _ => Event.noConfusion
  | task isDone =>
      obtain rfl : es = [.task isDone] := h
      exact .single fun _ => Event.noConfusion
  | code info s => exact .code h
  | html raw =>
      obtain ⟨pieces, -, hpieces⟩ := h
      have hinner : Holds [] (pieces.map Event.html) := by
        refine .of_forall fun e he kind => ?_
        obtain ⟨piece, -, rfl⟩ := List.mem_map.mp he
        exact Event.noConfusion
      rcases hpieces with rfl | rfl
      · refine .around (P := (· = pieces.map Event.html)) (fun _ => Opening.noConfusion) ?_
          (around_of _ _ rfl)
        intro es heq
        rwa [heq]
      · exact hinner
  | quote children =>
      exact .around (fun _ => Opening.noConfusion) (fun _ => holds_of_allDelivered children) h
  | list start items =>
      exact .around (fun _ => Opening.noConfusion) (fun _ => holds_of_itemsDelivered items) h
  | table alignments head rows =>
      have hnone : (table alignments head rows).inserts.filterMap Insert.code? = [] := by
        rw [inserts, List.filterMap_append, code?_cells, List.filterMap_flatMap, List.nil_append,
          List.flatMap_eq_nil_iff]
        exact fun row _ => code?_cells row
      rw [hnone]
      refine .around (fun _ => Opening.noConfusion) (fun _ hinner => ?_) h
      exact .both (fun _ => .around (fun _ => Opening.noConfusion) fun _ => holds_of_cellsDelivered)
        (fun _ => .eachNone fun row _ =>
          .around (fun _ => Opening.noConfusion) fun _ => holds_of_cellsDelivered) hinner
  | footnote label children =>
      exact .around (fun _ => Opening.noConfusion) (fun _ => holds_of_allDelivered children) h

/-- **Each block of code** comes once in the events of a document, and in order. -/
theorem holds_of_allDelivered (document : List (Block (List Inline))) {es : List Event}
    (h : AllDelivered document es) : Holds (codeBlocks document) es := by
  cases document with
  | nil =>
      obtain rfl : es = [] := h
      exact .nil
  | cons b rest =>
      rw [codeBlocks, allInserts, List.filterMap_append]
      exact .both (fun _ => holds_of_delivered b) (fun _ => holds_of_allDelivered rest) h

theorem holds_of_itemsDelivered (items : List (List (Block (List Inline)))) {es : List Event}
    (h : ItemsDelivered items es) : Holds ((itemInserts items).filterMap Insert.code?) es := by
  cases items with
  | nil =>
      obtain rfl : es = [] := h
      exact .nil
  | cons item rest =>
      rw [itemInserts, List.filterMap_append]
      exact .both (fun _ => .around (fun _ => Opening.noConfusion)
        fun _ => holds_of_allDelivered item) (fun _ => holds_of_itemsDelivered rest) h

end

end Block

/-- **The blocks of code in the events** of a document are those of the document, each
with its text in pieces. -/
theorem joined_codePieces {document : List (Block (List Inline))} {es : List Event}
    (h : Block.AllDelivered document es) : (codePieces es).map joined = codeBlocks document := by
  have hall := Block.holds_of_allDelivered document h []
  rwa [List.append_nil, codePieces, List.map_nil, List.append_nil] at hall

end CodeFence.Markdown
