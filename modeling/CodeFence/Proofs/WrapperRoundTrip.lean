import CodeFence.Proofs.PageRefresh

/-!
# What a wrapper says is what was written

A wrapper is written by three encodings, one inside the other: the configuration
as JSON, that text escaped as an attribute, and the attributes in an opening
tag.  Each of them is undone when the wrapper is read, whatever stands in the
texts; and no rendering inside the wrapper looks like another one.

* `Rendered` — the markup that the bundled engine and scripted ones make of
  blocks;
* `Rendered.avoids_mark` — in none of it a wrapper begins;
* `blockAttributes_render` — so a wrapper around it is read as the one that was
  written.
-/

namespace CodeFence

open Wrapper

/-- The markup of a block as the bundled engine or a scripted one renders it, in
a session with any history. -/
inductive Rendered : String → Prop
  | bundled (analyse : Syntax.Analysis) (around : Surroundings) (state : Bundled) (s : Settings)
      (events : List Event) (code language : String) (config : BlockConfig)
      (asked : Option String) :
      Rendered (((Session.start (Bundled.engineWith analyse around) state s).live events).render
        code language config asked).toHtml
  | scripted (script : Script) (loaded : List String) (s : Settings) (events : List Event)
      (code language : String) (config : BlockConfig) (asked : Option String) :
      Rendered (((Session.start script.engine loaded s).live events).render
        code language config asked).toHtml

/-- Every block that a tidy engine renders is tidy, after any history. -/
theorem Session.tidy_render {σ : Type} {engine : Engine σ} (htidy : engine.Tidy)
    (state : σ) (s : Settings) (events : List Event) (code language : String)
    (config : BlockConfig) (asked : Option String) :
    (((start engine state s).live events).render code language config asked).Tidy :=
  Pipeline.tidy_render htidy (supplied_live (Pipeline.vouches_tidy htidy) state s events) code
    language config asked _

/-- **No wrapper begins** in the markup of a block. -/
theorem Rendered.avoids_mark {html : String} (h : Rendered html) :
    Text.Avoids mark html.toList := by
  have htidy : ∃ d : Markup.Document, d.Tidy ∧ d.toHtml = html := by
    cases h with
    | bundled analyse around state s events code language config asked =>
        exact ⟨_, Session.tidy_render (Bundled.tidy_engineWith analyse around) state s events
          code language config asked, rfl⟩
    | scripted script loaded s events code language config asked =>
        exact ⟨_, Session.tidy_render (Script.tidy_engine script) loaded s events code language
          config asked, rfl⟩
  obtain ⟨d, hd, rfl⟩ := htidy
  exact hd.avoids_mark

/-- A line end is no wrapper. -/
theorem no_mark_newline : ¬ mark <:+: ['\n'] := by
  intro h
  have hlength : mark.length ≤ 1 := h.length_le
  exact absurd hlength (by decide)

/-- **One wrapper, one record.** -/
theorem blockAttributes_eq (config : BlockConfig) (code : String) {html : String}
    (h : Text.Avoids mark html.toList) :
    blockAttributes (render config code html ++ "\n") = [recorded config code] := by
  have hquiet : Quiet [] := quiet_of_no_mark (by decide)
  have hall := all_render hquiet config code h ['\n']
  rw [blockAttributes, String.toList_append]
  rw [List.nil_append, all_of_no_mark no_mark_newline] at hall
  exact hall

/-- **What a wrapper says is what was written.**  Around any rendered block, the
language and the source are read as they were, the text of the configuration is
that of the configuration, and the block is configured by it, repaired if need
be.  Whatever attributes are read, the configuration of their block is valid. -/
theorem blockAttributes_render {config : BlockConfig} (hrange : config.InRange) (code : String)
    {html : String} (h : Rendered html) :
    (∃ a text, blockAttributes (render config code html ++ "\n") = [a] ∧
      a.language = config.language ∧
      a.originalCode = code ∧
      a.config = some text ∧ BlockConfig.parse? text = some config ∧
      a.blockConfig = if config.isValid then config else config.sanitize) ∧
    ∀ a : BlockAttributes, a.blockConfig.isValid = true := by
  refine ⟨⟨recorded config code, config.render, blockAttributes_eq config code h.avoids_mark,
    rfl, rfl, rfl, hrange.parse?_render, ?_⟩, BlockAttributes.isValid_blockConfig⟩
  rw [BlockAttributes.blockConfig, recorded, Option.bind_some, hrange.parse?_render,
    Option.getD_some, BlockConfig.repaired]

/-- A configuration that is not valid, with texts that look like markup. -/
def strangeConfig : BlockConfig where
  language := "a\" data-config=\"&quot;"
  highlightLines := [3, 0, 3]
  startLine := 0
  title := some "</pre></div>\n\\"

/-- It is read back from a wrapper around a scripted block, and repaired then. -/
theorem blockAttributes_render_strange :
    let html := (((Session.start ({} : Script).engine [] {}).live []).render "x" "rust"
      { language := "rust" } none).toHtml
    strangeConfig.InRange ∧ Rendered html ∧
      ∃ a, blockAttributes (render strangeConfig "\"&amp;\u0000" html ++ "\n") = [a] ∧
        a.config.bind BlockConfig.parse? = some strangeConfig ∧
        a.blockConfig = strangeConfig.sanitize := by
  have hrange : strangeConfig.InRange := ⟨by decide, by decide⟩
  have hrendered := Rendered.scripted {} [] {} [] "x" "rust" { language := "rust" } none
  obtain ⟨⟨a, text, hone, -, -, htext, hparse, hblock⟩, -⟩ :=
    blockAttributes_render hrange "\"&amp;\u0000" hrendered
  refine ⟨hrange, hrendered, a, hone, ?_, ?_⟩
  · rw [htext, Option.bind_some, hparse]
  · rw [hblock, if_neg (by decide)]

end CodeFence
