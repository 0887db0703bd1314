import CodeFence.Proofs.InlineForms
import CodeFence.Proofs.MarkdownPages
import CodeFence.Proofs.SwappedCode

/-!
# Rendering code in the texts of images

Code inside a line can be rendered or left as it is.  In the text of an image, which
is an attribute, the difference shows: an image is described by the markup that its
code has given way to.

* `Pipeline.swapsSpans_renderCodeSpan` — rendering code inside a line swaps it;
* `Session.imageTexts` — the texts of the images on the page of a session;
* `Session.imageTexts_inline_iff` — when rendering code inside lines leaves the texts
  of images as they are;
* `Session.imageTexts_ne_of_code_in_image` — an image that it does not.
-/

namespace CodeFence

open Markdown

/-- Code inside a line that names a language does not begin as markup does. -/
theorem InlineCode.append_ne_of_parse? {t : String} {v : InlineCode} (h : parse? t = some v)
    {raw : String} (hraw : raw.toList.head? = some '<') (rest rest' : String) :
    t ++ rest ≠ raw ++ rest' := by
  obtain ⟨form, hform, name, behind, hspells, -⟩ := parse?_eq_some_iff.mp h
  intro heq
  have hhead : (t ++ rest).toList.head? = some '<' := by
    rw [heq, String.toList_append, List.head?_append, hraw]
    rfl
  obtain ⟨c, more, rfl⟩ := List.exists_cons_of_ne_nil hspells.name_ne
  rw [String.toList_append, hspells.text_eq] at hhead
  simp only [delimiters, List.mem_cons, List.not_mem_nil, or_false] at hform
  rcases hform with rfl | rfl | rfl
  · cases hhead
  · have hc : c = '<' := Option.some.inj hhead
    have hname := hspells.name_chars c List.mem_cons_self
    rw [hc] at hname
    exact absurd hname (by decide)
  · cases hhead

namespace Pipeline

variable {σ : Type}

/-- Rendering code inside a line swaps it, if it is the code of some language that the
engine has. -/
theorem swapsSpans_renderCodeSpan {I : Pipeline σ → Prop} (hI : Framed I)
    {stays goes : String → Prop} (hstays : ∀ p t, I p → p.spanCode? t = none → stays t)
    (hgoes : ∀ p t, I p → (p.spanCode? t).isSome = true → goes t) (now : Nat) :
    SwapsSpans I stays goes (renderCodeSpan now) := by
  intro text p hp
  rw [renderCodeSpan_run]
  cases hspan : p.spanCode? text with
  | none => exact ⟨hp, .code (hstays p text hp hspan)⟩
  | some inline =>
      refine ⟨hI.highlighted hp _ _ _ now, ?_⟩
      have hparse : InlineCode.parse? text = some inline := by
        unfold spanCode? at hspan
        have hread := (Option.filter_eq_some_iff.mp hspan).1
        split at hread
        · exact hread
        · cases hread
      refine .markup (hgoes p text hp (Option.isSome_of_mem hspan))
        (InlineCode.append_ne_of_parse? hparse ?_)
      simp only [String.toList_append, List.append_assoc]
      rfl

/-- An engine that always has the same languages renders the same code inside lines. -/
theorem spanCode?_of_fixed {p q : Pipeline σ} (hengine : p.engine = q.engine)
    (hsettings : p.settings = q.settings)
    (hsupports : ∀ st st' l, q.engine.supports st l = q.engine.supports st' l) (t : String) :
    p.spanCode? t = q.spanCode? t := by
  have hsame : q.engine.supports p.state = q.engine.supports q.state :=
    funext (hsupports p.state q.state)
  unfold spanCode? resolveLanguage
  rw [hengine, hsettings, hsame]

end Pipeline

namespace Session

open Pipeline

variable {σ τ : Type}

/-- The session, with or without rendering code inside lines. -/
def withInline (b : Bool) (x : Session σ) : Session σ :=
  { x with pipeline := { x.pipeline with
      settings := { x.pipeline.settings with inlineHighlight := b } } }

/-- The texts of the images on the page that the session would make now. -/
def imageTexts (x : Session σ) (text : String) : List String :=
  Markdown.imageTexts (x.replaced (parse text))

/-- Over a page, pieces of text are swapped in images and footnotes are as they were. -/
theorem swapped_replaced (x : Session σ) (stays goes : String → Prop)
    (hstays : ∀ p : Pipeline σ, p.engine = x.pipeline.engine → p.settings = x.pipeline.settings →
      ∀ t, p.spanCode? t = none → stays t)
    (hgoes : ∀ p : Pipeline σ, p.engine = x.pipeline.engine → p.settings = x.pipeline.settings →
      ∀ t, (p.spanCode? t).isSome = true → goes t)
    (document : List (Block (List Inline))) :
    List.Forall₂ (List.Forall₂ (Swapped stays goes)) (Block.allImages document)
        (Block.allImages (x.replaced document)) ∧
      Block.allLabels (x.replaced document) = Block.allLabels document := by
  have hframed := framed_of_frame (σ := σ) fun e s =>
    e = x.pipeline.engine ∧ s = x.pipeline.settings
  have hblocks := fillsBlocks_of_framed hframed (fun _ hp => hp.2) x.now
  have hspans := swapsSpans_renderCodeSpan hframed (fun p t hp => hstays p hp.1 hp.2 t)
    (fun p t hp => hgoes p hp.1 hp.2 t) x.now
  refine ⟨(Block.walk_allImages hblocks hspans document x.pipeline ⟨rfl, rfl⟩).2, ?_⟩
  have hlabels := (Block.walk_allLabels hblocks hspans document x.pipeline ⟨rfl, rfl⟩).2
  exact (List.forall₂_eq_eq_eq ▸ hlabels).symm

/-- Without rendering code inside lines, images are described as the document says. -/
theorem imageTexts_withInline_false (y : Session τ) (text : String) :
    (y.withInline false).imageTexts text = Markdown.imageTexts (parse text) := by
  have hgoes : ∀ p : Pipeline τ, p.engine = (y.withInline false).pipeline.engine →
      p.settings = (y.withInline false).pipeline.settings →
      ∀ t, (p.spanCode? t).isSome = true → False := by
    intro p _ hsettings t hsome
    have hoff : p.settings.inlineHighlight = false := by rw [hsettings]; rfl
    rw [spanCode?, hoff] at hsome
    cases hsome
  obtain ⟨himages, hlabels⟩ :=
    swapped_replaced (y.withInline false) (fun _ => True) (fun _ => False)
      (fun _ _ _ _ _ => trivial) hgoes (parse text)
  refine (imageTexts_eq_iff himages hlabels).mpr ?_
  exact (allImages_eq_iff himages fun _ _ => id).mpr fun _ _ => id

/-- **Rendering code inside lines and the texts of images.**  Whatever the pipelines,
the texts of images with and without it are the same exactly if no code in an image
has given way.  If the engine always has the same languages, this means that no code
in an image names one of them. -/
theorem imageTexts_inline_iff (x : Session σ) (y : Session τ) (text : String) :
    let on := x.withInline true
    let off := y.withInline false
    off.imageTexts text = Markdown.imageTexts (parse text) ∧
    (on.imageTexts text = off.imageTexts text ↔
      codesInImages (on.replaced (parse text)) = codesInImages (parse text)) ∧
    ((∀ st st' l, x.pipeline.engine.supports st l = x.pipeline.engine.supports st' l) →
      (on.imageTexts text = off.imageTexts text ↔
        ∀ t ∈ codesInImages (parse text), on.pipeline.spanCode? t = none)) := by
  intro on off
  have hoff : off.imageTexts text = Markdown.imageTexts (parse text) :=
    imageTexts_withInline_false y text
  rw [hoff]
  refine ⟨rfl, ?_, fun hsupports => ?_⟩
  · obtain ⟨himages, hlabels⟩ := swapped_replaced on (fun _ => True) (fun _ => True)
      (fun _ _ _ _ _ => trivial) (fun _ _ _ _ _ => trivial) (parse text)
    exact (imageTexts_eq_iff himages hlabels).trans (codesInImages_eq_iff himages).symm
  · have hspan (p : Pipeline σ) (hengine : p.engine = on.pipeline.engine)
        (hsettings : p.settings = on.pipeline.settings) (t : String) :=
      spanCode?_of_fixed hengine hsettings hsupports t
    obtain ⟨himages, hlabels⟩ := swapped_replaced on (fun t => on.pipeline.spanCode? t = none)
      (fun t => (on.pipeline.spanCode? t).isSome = true)
      (fun p hengine hsettings t hnone => (hspan p hengine hsettings t).symm.trans hnone)
      (fun p hengine hsettings t hsome => hspan p hengine hsettings t ▸ hsome) (parse text)
    refine (imageTexts_eq_iff himages hlabels).trans
      ((allImages_eq_iff himages fun t hnone => by simp [hnone]).trans ?_)
    exact forall₂_congr fun t _ => Option.not_isSome_iff_eq_none

/-- Code that names a language which the engine does not have stays what it is, in
the text of an image too. -/
theorem imageTexts_inline_iff_cobol :
    let x := start (Bundled.engineWith Syntax.analysis {}) (Bundled.ofSettings {} {}) {}
    let text := "![a `cobol: b`](u)"
    (∀ st st' l, x.pipeline.engine.supports st l = x.pipeline.engine.supports st' l) ∧
      (x.withInline true).imageTexts text = (x.withInline false).imageTexts text ∧
      (x.withInline false).imageTexts text = ["a cobol: b"] := by
  intro x text
  have hparse : parse text =
      [.paragraph [.image { url := "u" } [.text "a ", .code "cobol: b"]]] := by
    decide +kernel
  obtain ⟨hoff, -, hiff⟩ := imageTexts_inline_iff x x text
  have hsupports : ∀ st st' l,
      x.pipeline.engine.supports st l = x.pipeline.engine.supports st' l := fun _ _ _ => rfl
  refine ⟨hsupports, (hiff hsupports).mpr ?_, ?_⟩
  · rw [hparse]
    decide +kernel
  · rw [hoff, hparse]
    decide +kernel

/-- **Markup in the text of an image.**  Code that names a language of the engine is
described by the markup of its rendering. -/
theorem imageTexts_ne_of_code_in_image :
    let x := start (Bundled.engineWith Syntax.analysis {}) (Bundled.ofSettings {} {}) {}
    let text := "![`{rust} x`](u)"
    (x.withInline false).imageTexts text = ["{rust} x"] ∧
      (x.withInline true).imageTexts text =
        ["<code class=\"fencelight-inline\" data-language=\"rust\">" ++
          "<span class=\"line\">x</span></code>"] ∧
      (x.withInline true).markdown text =
        "<p><img src=\"u\" alt=\"&lt;code class=&quot;fencelight-inline&quot; " ++
          "data-language=&quot;rust&quot;&gt;&lt;span class=&quot;line&quot;&gt;x" ++
          "&lt;/span&gt;&lt;/code&gt;\" /></p>\n" := by
  intro x text
  have hparse : parse text = [.paragraph [.image { url := "u" } [.code "{rust} x"]]] := by
    decide +kernel
  simp only [markdown_eq, imageTexts, toHtml_eq_write, replaced, hparse]
  decide +kernel

end Session

end CodeFence
