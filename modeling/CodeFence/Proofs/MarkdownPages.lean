import CodeFence.Page.Render
import CodeFence.Proofs.DocumentOrigin
import CodeFence.Proofs.FoldedEvents
import CodeFence.Proofs.WrittenEvents

/-!
# Markdown in a session

While a document is written, one piece of code is rendered after the other, and
each of them may load languages and themes and change the cache.  The settings
stay, and so does what holds of all cached renderings.  So every block of code
gives way to a wrapper for its own source and its own configuration, around a
rendering with every property that renderings of this engine have.

* `renderEvents_run` — the events of a document give the document with its code
  replaced;
* `Steady` — what does not change while a document is written;
* `Wrapped`, `RenderedSpan` — what blocks of code and code inside lines give way
  to;
* `fillsBlocks_renderCodeBlock`, `fillsSpans_renderCodeSpan` — each of them does,
  and the pipeline stays steady;
* `Session.filled_page` — so the page of a session is the document with all its
  code replaced;
* `Session.exists_wrapper_of_mem_codeBlocks` — a block of code on the page of any
  session.
-/

namespace CodeFence

open Markup Markdown

/-- A rendering of the source of a block of code, in the wrapper for that source
and the configuration that the info string and the settings give it. -/
def Wrapped (P : Document → String → Prop) (s : Settings) (info text raw : String) : Prop :=
  ∃ d, P d (sourceOf text) ∧
    raw = Wrapper.render (.ofCode s info (sourceOf text)) (sourceOf text) d.toHtml ++ "\n"

/-- Rendered code inside a line: the inside of a rendering, or escaped text. -/
def RenderedSpan (P : Document → String → Prop) (raw : String) : Prop :=
  ∃ language code html,
    raw = "<code class=\"fencelight-inline\" data-language=\"" ++ escape language ++ "\">" ++
      html ++ "</code>" ∧
    (html = escape code ∨ ∃ d, P d code ∧ html = d.innerCodeHtml)

namespace Pipeline

variable {σ : Type} {engine : Engine σ} {P : Document → String → Prop} {s : Settings}
  {p : Pipeline σ}

/-- What stands in the place of a block of code. -/
def renderCodeBlock (now : Nat) : String → String → StateM (Pipeline σ) (Block (List Inline)) :=
  placeBlock (codeBlockHtml now)

/-- What stands in the place of code inside a line. -/
def renderCodeSpan (now : Nat) : String → StateM (Pipeline σ) Inline :=
  placeSpan (codeSpanHtml? now)

/-- **Rendering the events of a document** is rendering the document, however it is
delivered: its code is replaced, and then it is written. -/
theorem renderEvents_run {document : List (Block (List Inline))} {events : List Markdown.Event}
    (h : Block.AllDelivered document events) (now : Nat) (p : Pipeline σ) :
    renderEvents events now p =
      let r := Block.replaceAllCode (renderCodeBlock now) (renderCodeSpan now) document p
      (toHtml r.1, r.2) := by
  obtain ⟨events', hrun, hdelivered⟩ := Block.folds_replaceAllCode document events h [] p
  have hrender : renderEvents events now p =
      (eventsToHtml (Fold.run (codeBlockHtml now) (codeSpanHtml? now) {} events p).1.done,
        (Fold.run (codeBlockHtml now) (codeSpanHtml? now) {} events p).2) := rfl
  rw [hrender, hrun]
  exact congrArg (·, _) (eventsToHtml_eq hdelivered)

/-- A pipeline with given settings, in whose cache every document has a
property. -/
structure Steady (engine : Engine σ) (P : Document → String → Prop) (s : Settings)
    (p : Pipeline σ) : Prop where
  supplied : Supplied engine P p
  settings : p.settings = s

theorem Steady.highlighted (h : Vouches engine P) (hp : Steady engine P s p)
    (code language theme : String) (now : Nat) :
    Steady engine P s (highlighted code language theme now p).2 where
  supplied := (lasting_supplied h).highlighted code language theme ⟨p, now⟩ hp.supplied
  settings := (highlighted_frame code language theme now p).settings.trans hp.settings

theorem renderCodeBlock_run (now : Nat) (info text : String) (p : Pipeline σ) :
    renderCodeBlock now info text p =
      let code := sourceOf text
      let config := BlockConfig.ofCode p.settings info code
      let r := render code config.language config none now p
      (.html (Wrapper.render config code r.1.toHtml ++ "\n"), r.2) := rfl

/-- What is rendered of code inside a line: the settings ask for it, a language is
named, and the engine has that language. -/
def spanCode? (p : Pipeline σ) (text : String) : Option InlineCode :=
  (if p.settings.inlineHighlight then InlineCode.parse? text else none).filter fun inline =>
    (p.resolveLanguage inline.language).isSome

theorem renderCodeSpan_run (now : Nat) (text : String) (p : Pipeline σ) :
    renderCodeSpan now text p =
      match p.spanCode? text with
      | none => (.code text, p)
      | some inline =>
        let r := renderInline inline.code inline.language now p
        (.html ("<code class=\"fencelight-inline\" data-language=\"" ++ escape inline.language ++
          "\">" ++ r.1 ++ "</code>"), r.2) := by
  have hget : (get : StateM (Pipeline σ) (Pipeline σ)) p = (p, p) := rfl
  simp only [renderCodeSpan, placeSpan, codeSpanHtml?, spanCode?, state_bind, hget]
  cases (if p.settings.inlineHighlight then InlineCode.parse? text else none) with
  | none => rfl
  | some inline =>
      cases hresolved : p.resolveLanguage inline.language with
      | none =>
          simp only [Option.filter, hresolved]
          rfl
      | some resolved =>
          simp only [Option.filter, hresolved]
          rfl

/-- **Blocks of code** give way to their wrappers. -/
theorem fillsBlocks_renderCodeBlock (h : Vouches engine P)
    (hpasses : ∀ c passes d code, P d code → P (Pass.applyAll passes c d) code) (now : Nat) :
    FillsBlocks (Steady engine P s) (Wrapped P s) (renderCodeBlock now) := by
  intro info text p hp
  rw [renderCodeBlock_run, hp.settings]
  dsimp only
  rw [render_run]
  refine ⟨hp.highlighted h _ _ _ now, _, ⟨_, ?_, rfl⟩, rfl⟩
  exact hpasses _ _ _ _ (h.highlighted hp.supplied _ _ _ now)

/-- **Code inside a line** stays, or gives way to a rendering. -/
theorem fillsSpans_renderCodeSpan (h : Vouches engine P) (now : Nat) :
    FillsSpans (Steady engine P s) (RenderedSpan P) (renderCodeSpan now) := by
  intro text p hp
  rw [renderCodeSpan_run]
  cases p.spanCode? text with
  | none => exact ⟨hp, Or.inl rfl⟩
  | some inline =>
      dsimp only
      rw [renderInline_run]
      refine ⟨hp.highlighted h _ _ _ now,
        Or.inr ⟨_, ⟨inline.language, inline.code, _, rfl, ?_⟩, rfl⟩⟩
      dsimp only
      split
      · exact Or.inl rfl
      · exact Or.inr ⟨_, h.highlighted hp.supplied inline.code inline.language _ now, rfl⟩

/-- Of any engine, wrappers are for the right source and configuration, and what a
talk with the engine keeps is kept. -/
theorem fillsBlocks_of_framed {I : Pipeline σ → Prop} (hI : Framed I)
    (hsettings : ∀ p, I p → p.settings = s) (now : Nat) :
    FillsBlocks I (Wrapped (fun _ _ => True) s) (renderCodeBlock now) := by
  intro info text p hp
  rw [renderCodeBlock_run, hsettings p hp]
  exact ⟨hI.highlighted hp _ _ _ now, _, ⟨_, trivial, rfl⟩, rfl⟩

/-- Code inside a line stays or gives way to markup, of any engine. -/
theorem fillsSpans_of_framed {I : Pipeline σ → Prop} (hI : Framed I) (now : Nat) :
    FillsSpans I (fun _ => True) (renderCodeSpan now) := by
  intro text p hp
  rw [renderCodeSpan_run]
  cases p.spanCode? text with
  | none => exact ⟨hp, Or.inl rfl⟩
  | some inline => exact ⟨hI.highlighted hp _ _ _ now, Or.inr ⟨_, trivial, rfl⟩⟩

end Pipeline

namespace Session

open Pipeline

variable {σ : Type}

/-- The document that the session would write now, with its code replaced. -/
def replaced (x : Session σ) (document : List (Block (List Inline))) :
    List (Block (List Inline)) :=
  (Block.replaceAllCode (renderCodeBlock x.now) (renderCodeSpan x.now) document x.pipeline).1

/-- The page that the session would make now of a document. -/
def markdown (x : Session σ) (text : String) : String :=
  (renderMarkdown text x.now x.pipeline).1

/-- What the session would make now of a document that is delivered as events. -/
def rendered (x : Session σ) (events : List Markdown.Event) : String :=
  (renderEvents events x.now x.pipeline).1

theorem rendered_eq (x : Session σ) {document : List (Block (List Inline))}
    {events : List Markdown.Event} (h : Block.AllDelivered document events) :
    x.rendered events = toHtml (x.replaced document) := by
  rw [rendered, renderEvents_run h]
  rfl

theorem markdown_eq (x : Session σ) (text : String) :
    x.markdown text = toHtml (x.replaced (parse text)) :=
  x.rendered_eq (Block.allDelivered_allEvents (parse text))

/-- **A page** is the document with wrappers for its blocks of code, through any
history. -/
theorem filled_page {engine : Engine σ} {P : Document → String → Prop} (h : Vouches engine P)
    (hpasses : ∀ c passes d code, P d code → P (Pass.applyAll passes c d) code)
    (state : σ) (s : Settings) (events : List Event) (document : List (Block (List Inline))) :
    let x := (start engine state s).live events
    List.Forall₂ (Filled (Wrapped P x.pipeline.settings) (RenderedSpan P))
      (Block.allInserts document) (Block.allInserts (x.replaced document)) := by
  intro x
  have hsteady : Steady engine P x.pipeline.settings x.pipeline :=
    ⟨supplied_live h state s events, rfl⟩
  exact (Block.walk_replaceAllCode (fillsBlocks_renderCodeBlock h hpasses x.now)
    (fillsSpans_renderCodeSpan h x.now) document x.pipeline hsteady).2

/-- **A block of code on a page**, of any engine and in any session, gives way to the
wrapper for its source and its configuration. -/
theorem exists_wrapper_of_mem_codeBlocks (x : Session σ)
    {document : List (Block (List Inline))} {info text : String}
    (h : (info, text) ∈ codeBlocks document) :
    ∃ html, .html (Wrapper.render (.ofCode x.pipeline.settings info (sourceOf text))
      (sourceOf text) html ++ "\n") ∈ Block.allInserts (x.replaced document) := by
  have hframed := framed_of_frame (σ := σ) fun _ s => s = x.pipeline.settings
  have hblocks := fillsBlocks_of_framed hframed (fun _ hp => hp) x.now
  have hspans := fillsSpans_of_framed hframed x.now
  have hfilled := (Block.walk_replaceAllCode hblocks hspans document x.pipeline rfl).2
  obtain ⟨i, hi, hcode⟩ := List.mem_filterMap.mp h
  obtain ⟨j, hj, hfill⟩ := exists_mem_of_forall₂ hfilled hi
  cases hfill with
  | block hwrapped =>
      cases hcode
      obtain ⟨d, -, rfl⟩ := hwrapped
      exact ⟨d.toHtml, hj⟩
  | _ => cases hcode

end Session

end CodeFence
