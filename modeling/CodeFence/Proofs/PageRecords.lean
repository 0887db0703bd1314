import CodeFence.Proofs.CodeBlocks
import CodeFence.Proofs.MarkdownPages
import CodeFence.Proofs.TidyBlocks
import CodeFence.Proofs.WrittenMarkdown

/-!
# What a page records of its document

A page that is made of a document without markup of its own has one wrapper for
each block of code, in the order of the document, and what it records is the
source of that block and its configuration.  No text of the document counts as a
wrapper, whatever it looks like: not the source inside a wrapper, not code
inside a line, and nothing between the blocks.

* `RenderedSpan.avoids_mark` — no wrapper begins in rendered code inside a line;
* `Wrapped.blockAttributes_eq` — the wrapper of a block of code is complete in
  itself, and what it records;
* `Recorded` — what a wrapper says about a block of code;
* `Session.blockAttributes_markdown` — every block of code is recorded once.
-/

namespace CodeFence

open Markup Markdown Wrapper

/-- No wrapper begins among the lines of a block. -/
theorem Markup.Document.Tidy.avoids_innerCodeHtml {d : Document} (h : d.Tidy) :
    Text.Avoids mark d.innerCodeHtml.toList := by
  unfold Document.innerCodeHtml
  cases hcode : d.code? with
  | none => trivial
  | some code =>
      obtain ⟨n, hn, helement⟩ := List.mem_filterMap.mp (List.mem_of_find?_eq_some hcode)
      have htag : code.tag = "code" := by simpa using List.find?_some hcode
      have hnode : n = code.toNode := by
        cases n with
        | text value => cases helement
        | element tag attrs children =>
            cases helement
            rfl
      rcases h.children n hn with htidy | ⟨attrs, text, -, htitle⟩
      · rw [hnode, Element.toNode] at htidy
        cases htidy with
        | element _ _ hchildren =>
            exact avoids_nodesToHtml fun m hm => (hchildren m hm).avoids_mark
      · rw [hnode, Element.toNode] at htitle
        injection htitle with htitle
        rw [htag] at htitle
        exact absurd htitle (by decide)

/-- **Rendered code inside a line** begins no wrapper. -/
theorem RenderedSpan.avoids_mark {raw : String} (h : RenderedSpan (fun d _ => d.Tidy) raw) :
    Text.Avoids mark raw.toList := by
  obtain ⟨language, code, html, rfl, hhtml⟩ := h
  have htags : Text.Avoids mark "<code class=\"fencelight-inline\" data-language=\"".toList ∧
      Text.Avoids mark "\">".toList ∧ Text.Avoids mark "</code>".toList := by decide
  have hlanguage := lt_not_mem_escape language
  have hinner : '<' ∉ html.toList ∨ Text.Avoids mark html.toList := by
    rcases hhtml with rfl | ⟨d, hd, rfl⟩
    · exact Or.inl (lt_not_mem_escape code)
    · exact Or.inr hd.avoids_innerCodeHtml
  simp only [String.toList_append]
  -- what the texts are does not matter from here on
  generalize "<code class=\"fencelight-inline\" data-language=\"".toList = front at htags ⊢
  generalize (escape language).toList = value at hlanguage ⊢
  generalize html.toList = inner at hinner ⊢
  have hvalue : Text.Avoids mark value := Text.avoids_of_not_mem hlanguage
  have hinner : Text.Avoids mark inner := hinner.elim Text.avoids_of_not_mem id
  exact (((htags.1.append hvalue).append htags.2.1).append hinner).append htags.2.2

/-- **The wrapper of a block of code** is found whatever follows it. -/
theorem Wrapped.all_append {s : Settings} {info text raw : String}
    (h : Wrapped (fun d _ => d.Tidy) s info text raw) (rest : List Char) :
    all (raw.toList ++ rest) =
      recorded (.ofCode s info (sourceOf text)) (sourceOf text) :: all rest := by
  obtain ⟨d, hd, rfl⟩ := h
  have hquiet : Quiet [] := trivial
  have hnewline : Text.Avoids mark ['\n'] := by decide
  have hall := all_render hquiet (.ofCode s info (sourceOf text)) (sourceOf text) hd.avoids_mark
    (['\n'] ++ rest)
  rw [all_append_of_avoids hnewline, List.nil_append] at hall
  rw [String.toList_append, List.append_assoc]
  exact hall

theorem Wrapped.blockAttributes_eq {s : Settings} {info text raw : String}
    (h : Wrapped (fun d _ => d.Tidy) s info text raw) :
    blockAttributes raw = [recorded (.ofCode s info (sourceOf text)) (sourceOf text)] := by
  have hall := h.all_append []
  rwa [List.append_nil, all_nil] at hall

theorem Wrapped.separate {s : Settings} {info text raw : String}
    (h : Wrapped (fun d _ => d.Tidy) s info text raw) : Wrapper.Separate raw.toList := by
  intro rest
  have hown : all raw.toList = [_] := h.blockAttributes_eq
  rw [h.all_append, hown]
  rfl

/-- **The replaced inserts** can stand anywhere, and their wrappers are those of
the blocks of code. -/
theorem wrappers_of_filled {s : Settings} {before after : List Insert}
    (h : List.Forall₂
      (Filled (Wrapped (fun d _ => d.Tidy) s) (RenderedSpan fun d _ => d.Tidy)) before after)
    (hraw : ∀ i ∈ before, i.isRaw = false) :
    (∀ i ∈ after, i.Separate) ∧
      after.flatMap Insert.wrappers = (before.filterMap Insert.code?).map fun block =>
        recorded (.ofCode s block.1 (sourceOf block.2)) (sourceOf block.2) := by
  induction h with
  | nil => simp
  | @cons i j before after hfilled _ ih =>
      obtain ⟨hfirst, hrest⟩ := List.forall_mem_cons.mp hraw
      obtain ⟨hseparate, hwrappers⟩ := ih hrest
      rw [List.forall_mem_cons, List.flatMap_cons, hwrappers]
      cases hfilled with
      | block hblock =>
          refine ⟨⟨hblock.separate, hseparate⟩, ?_⟩
          rw [Insert.wrappers, hblock.blockAttributes_eq]
          rfl
      | span hspan => exact ⟨⟨hspan.avoids_mark, hseparate⟩, rfl⟩
      | code text => exact ⟨⟨trivial, hseparate⟩, rfl⟩
      | html raw => cases hfirst
      | inner raw => cases hfirst

/-- What a wrapper says about a block of code, given its info string and its
text. -/
structure Recorded (s : Settings) (block : String × String) (a : BlockAttributes) : Prop where
  source : block.2 = a.originalCode ++ "\n" ∨
    block.2 = a.originalCode ∧ ¬ ['\n'] <:+ block.2.toList
  detected : ∀ language, BlockConfig.IsDetected s block.1 a.originalCode language →
    a.blockConfig = { (InfoString.parse block.1).config.repaired with language }
  written : (∀ language, ¬ BlockConfig.IsDetected s block.1 a.originalCode language) →
    a.blockConfig = (InfoString.parse block.1).config.repaired
  language : a.language = a.blockConfig.language

theorem recorded_ofCode (s : Settings) (block : String × String) :
    Recorded s block
      (recorded (.ofCode s block.1 (sourceOf block.2)) (sourceOf block.2)) := by
  generalize ha : recorded (.ofCode s block.1 (sourceOf block.2)) (sourceOf block.2) = a
  have hsource : a.originalCode = sourceOf block.2 := by rw [← ha, recorded]
  have hlanguage : a.language = (BlockConfig.ofCode s block.1 (sourceOf block.2)).language := by
    rw [← ha, recorded]
  have hconfig : a.blockConfig = .ofCode s block.1 (sourceOf block.2) :=
    BlockAttributes.blockConfig_of_render (by rw [← ha, recorded])
      (BlockConfig.isValid_ofCode _ _ _) (BlockConfig.inRange_ofCode _ _ _)
  refine ⟨?_, ?_, ?_, ?_⟩
  · rw [hsource]
    exact sourceOf_cases block.2
  · rw [hsource, hconfig]
    exact fun language hdetected => BlockConfig.ofCode_of_detected hdetected
  · rw [hsource, hconfig]
    exact BlockConfig.ofCode_of_not_detected
  · rw [hlanguage, hconfig]

/-- A text that ends with a line end is recorded without it. -/
theorem Recorded.originalCode_eq {s : Settings} {info code : String} {a : BlockAttributes}
    (h : Recorded s (info, code ++ "\n") a) : a.originalCode = code := by
  rcases h.source with heq | ⟨-, hend⟩
  · have hchars : code.toList ++ ['\n'] = a.originalCode.toList ++ ['\n'] := by
      simpa using congrArg String.toList heq
    exact (String.toList_injective (List.append_cancel_right hchars)).symm
  · exact absurd ⟨code.toList, by simp⟩ hend

namespace Session

/-- The page of any document without markup of its own records its blocks of
code. -/
theorem recorded_page {σ : Type} {engine : Engine σ} (htidy : engine.Tidy) (state : σ)
    (s : Settings) (events : List Event) {document : List (Block (List Inline))}
    (hraw : ∀ i ∈ Block.allInserts document, i.isRaw = false) :
    let x := (start engine state s).live events
    List.Forall₂ (Recorded x.pipeline.settings) (codeBlocks document)
      (blockAttributes (toHtml (x.replaced document))) := by
  intro x
  have hfilled := filled_page (Pipeline.vouches_tidy htidy)
    (fun _ _ _ _ hd => Pass.tidy_applyAll _ _ hd) state s events document
  obtain ⟨hseparate, hwrappers⟩ := wrappers_of_filled hfilled hraw
  rw [blockAttributes_toHtml hseparate, hwrappers, codeBlocks, List.forall₂_map_right_iff]
  exact List.forall₂_same.mpr fun block _ => recorded_ofCode _ block

/-- **Every block of code is recorded once.**  Through any history of the bundled
engine, and however a document without markup of its own is delivered, its page has
one wrapper for each block of code, in order.  It holds the pieces of text of the
block, put together and without one line end, and the configuration that was read
from the info string, repaired if need be, in another language exactly if that was
detected.  The blocks of code in the events are those of the document, and the page of
a text that reads as the document is the same page. -/
theorem blockAttributes_markdown (analyse : Syntax.Analysis) (around : Surroundings)
    (state : Bundled) (s : Settings) (history : List Event)
    {document : List (Block (List Inline))} {events : List Markdown.Event}
    (hdelivered : Block.AllDelivered document events)
    (hraw : ∀ i ∈ Block.allInserts document, i.isRaw = false) :
    let x := (start (Bundled.engineWith analyse around) state s).live history
    List.Forall₂ (Recorded x.pipeline.settings) ((codePieces events).map joined)
        (blockAttributes (x.rendered events)) ∧
      (codePieces events).map joined = codeBlocks document ∧
      ∀ text, parse text = document → x.markdown text = x.rendered events := by
  intro x
  have hblocks := joined_codePieces hdelivered
  have hpage := x.rendered_eq hdelivered
  refine ⟨?_, hblocks, ?_⟩
  · rw [hblocks, hpage]
    exact recorded_page (Bundled.tidy_engineWith analyse around) state s history hraw
  · intro text htext
    rw [x.markdown_eq, htext, hpage]

/-- A text that looks like the opening tag of a wrapper. -/
def lookalike : String :=
  "<div class=\"fencelight-block\" data-language=\"\" data-original-code=\"\">"

/-- A document whose code looks like wrappers, inside a line and in a block. -/
def imitation : String :=
  "`{c} <div class=\"fencelight-block\">`\n```rust fold unfold\n" ++ lookalike ++
    "\n```\n\n    #!/bin/sh\n"

theorem parse_imitation : parse imitation =
    [.paragraph [.code "{c} <div class=\"fencelight-block\">"],
      .code "rust fold unfold" (lookalike ++ "\n"), .code "" ("#!/bin/sh" ++ "\n")] := by
  decide +kernel

/-- The events of this document, with line ends that come as pieces of their own. -/
def imitationEvents : List Markdown.Event :=
  [.start .paragraph, .code "{c} <div class=\"fencelight-block\">", .stop .paragraph,
    .start (.code (.fenced "rust fold unfold")), .text lookalike, .text "\n", .stop .code,
    .start (.code .indented), .text "#!/bin/sh", .text "\n", .stop .code]

theorem delivered_imitation : Block.AllDelivered (parse imitation) imitationEvents := by
  have hcode : ∀ (kind : CodeKind) (text : String),
      (Block.code kind.info (text ++ "\n")).Delivered
        (Markdown.Event.around (.code kind) .code [.text text, .text "\n"]) := by
    intro kind text
    refine ⟨kind, [text, "\n"], rfl, ?_, rfl⟩
    rw [String.join_cons, join_singleton]
  have hword : Inline.Delivered (.code "{c} <div class=\"fencelight-block\">")
      [.code "{c} <div class=\"fencelight-block\">"] := rfl
  have hnothing : Inline.AllDelivered [] [] := rfl
  have hspan : Inline.AllDelivered [.code "{c} <div class=\"fencelight-block\">"]
      [.code "{c} <div class=\"fencelight-block\">"] := then_of hword hnothing
  have hparagraph : (Block.paragraph [.code "{c} <div class=\"fencelight-block\">"]).Delivered
      (Markdown.Event.around .paragraph .paragraph
        [.code "{c} <div class=\"fencelight-block\">"]) := around_of _ _ hspan
  have hend : Block.AllDelivered [] [] := rfl
  rw [parse_imitation]
  exact then_of hparagraph (then_of (hcode (.fenced "rust fold unfold") lookalike)
    (then_of (hcode .indented "#!/bin/sh") hend))

/-- Its page has two wrappers: one whose configuration was repaired, and one
whose language was detected. -/
theorem blockAttributes_markdown_imitation :
    let x := (start (Bundled.engineWith Syntax.analysis {}) (Bundled.ofSettings {} {}) {}).live []
    Block.AllDelivered (parse imitation) imitationEvents ∧
      (∀ i ∈ Block.allInserts (parse imitation), i.isRaw = false) ∧
      x.markdown imitation = x.rendered imitationEvents ∧
      ∃ a b, blockAttributes (x.markdown imitation) = [a, b] ∧
        a.originalCode = lookalike ∧ a.blockConfig = { language := "rust" } ∧
        b.originalCode = "#!/bin/sh" ∧ b.blockConfig = { language := "bash" } := by
  intro x
  have hraw : ∀ i ∈ Block.allInserts (parse imitation), i.isRaw = false := by
    rw [parse_imitation]
    decide
  have hblocks : codeBlocks (parse imitation) =
      [("rust fold unfold", lookalike ++ "\n"), ("", "#!/bin/sh" ++ "\n")] := by
    rw [parse_imitation]
    rfl
  obtain ⟨hrecords, hpieces, hpage⟩ := blockAttributes_markdown Syntax.analysis {}
    (Bundled.ofSettings {} {}) {} [] delivered_imitation hraw
  have hsame := hpage imitation rfl
  rw [hpieces, hblocks] at hrecords
  obtain ⟨a, rest, hfirst, hrest, hpair⟩ := List.forall₂_cons_left_iff.mp hrecords
  obtain ⟨b, rest, hsecond, hend, rfl⟩ := List.forall₂_cons_left_iff.mp hrest
  obtain rfl := List.forall₂_nil_left_iff.mp hend
  have hsource := hsecond.originalCode_eq
  have hdetected : BlockConfig.IsDetected {} "" b.originalCode "bash" := by
    rw [hsource]
    exact ⟨by decide, rfl, by decide +kernel⟩
  have hnotBlank : Text.isBlankText "rust fold unfold" = false := by decide
  have hrepaired : (InfoString.parse "rust fold unfold").config.repaired =
      { language := "rust" } := by decide +kernel
  refine ⟨delivered_imitation, hraw, hsame, a, b, ?_, hfirst.originalCode_eq, ?_, hsource, ?_⟩
  · exact (congrArg blockAttributes hsame).trans hpair
  · rw [← hrepaired]
    refine hfirst.written fun language hlanguage => ?_
    exact absurd hlanguage.1 (by simp [hnotBlank])
  · exact (hsecond.detected "bash" hdetected).trans (by decide +kernel)

end Session

end CodeFence
