import CodeFence.Proofs.CodeBlocks
import CodeFence.Proofs.MarkdownPages
import CodeFence.Proofs.SourceText
import CodeFence.Proofs.TidyBlocks

/-!
# The lines of a block of code on a page

The text of a block of code ends with a line end, which opens no further line.
It is left out twice: the source that is put into the wrapper is the text without
one, and the lines of that source do not count one either.  So a text that ends
with a single line end is shown as it is, and one that ends with an empty line is
shown without that line.

* `displayLines_eq` — the lines of a text, by those of the source that is made
  of it;
* `Displays` — what of a text is shown;
* `Session.displayed_page` — every block of code of a page shows its lines, and
  the last one exactly if the text does not end with an empty line;
* `Session.not_displayed_of_empty_line` — one that does.
-/

namespace CodeFence

open Markup Markdown

/-- A text ends with an empty line. -/
def EndsEmpty (text : String) : Prop :=
  ['\n', '\n'] <:+ text.toList

instance (text : String) : Decidable (EndsEmpty text) :=
  inferInstanceAs (Decidable (['\n', '\n'] <:+ text.toList))

/-- **The lines of a text** are those of its source, and an empty one if the text
ends with one. -/
theorem displayLines_eq (text : String) :
    displayLines text.toList =
      displayLines (sourceOf text).toList ++ if EndsEmpty text then [[]] else [] := by
  rcases sourceOf_cases text with hends | ⟨hsame, hends⟩
  · generalize sourceOf text = code at hends ⊢
    have htext : text.toList = code.toList ++ ['\n'] := by rw [hends, String.toList_append]; rfl
    rw [htext, displayLines_append_newline]
    -- a source that ends with a line end again has lost the line between the two
    by_cases hagain : ['\n'] <:+ code.toList
    · obtain ⟨front, hfront⟩ := hagain
      have hempty : EndsEmpty text := ⟨front, by rw [htext, ← hfront, List.append_assoc]; rfl⟩
      rw [if_pos hempty, ← hfront, displayLines_append_newline, Text.splitAt_append_sep,
        List.map_append]
      rfl
    · have hnot : ¬ EndsEmpty text := by
        rintro ⟨front, hfront⟩
        have htwo : front ++ ['\n'] ++ ['\n'] = code.toList ++ ['\n'] := by
          rw [← htext, ← hfront, List.append_assoc]
          rfl
        exact hagain ⟨front, List.append_cancel_right htwo⟩
      rw [if_neg hnot, List.append_nil, displayLines_of_no_newline hagain]
  · have hnot : ¬ EndsEmpty text := fun hempty => hends (List.IsSuffix.trans ⟨['\n'], rfl⟩ hempty)
    rw [if_neg hnot, List.append_nil, ← hsame]

/-- What a block shows of a text: all of its lines exactly if no empty line is the
last one, and otherwise all but that one. -/
structure Displays (d : Document) (text : String) : Prop where
  all_iff : d.lines.map lineText = (displayLines text.toList).map String.ofList ↔ ¬ EndsEmpty text
  all_but_last : EndsEmpty text →
    (displayLines text.toList).map String.ofList = d.lines.map lineText ++ [""]

/-- The wrapper of a block of code, around an element that displays its text. -/
def Displayed (s : Settings) (info text raw : String) : Prop :=
  ∃ d, raw = Wrapper.render (.ofCode s info (sourceOf text)) (sourceOf text) d.toHtml ++ "\n" ∧
    d.root.tag = "pre" ∧ Displays d text

/-- A block that shows the source of a text. -/
theorem Shows.displays {d : Document} {text : String} (h : Shows d (sourceOf text)) :
    Displays d text := by
  have hlines : (displayLines text.toList).map String.ofList =
      d.lines.map lineText ++ if EndsEmpty text then [""] else [] := by
    rw [displayLines_eq, List.map_append, h]
    split <;> rfl
  refine ⟨?_, fun hempty => by rw [hlines, if_pos hempty]⟩
  rw [hlines]
  split <;> simp_all

namespace Session

/-- **The lines of a page.**  Through any history of the bundled engine, a page is
the document with a wrapper in the place of each block of code, whatever else
there is; and that wrapper shows the lines of the block, all of them exactly if
its text does not end with an empty line. -/
theorem displayed_page (analyse : Syntax.Analysis) (around : Surroundings) (state : Bundled)
    (s : Settings) (events : List Event) (text : String) :
    let x := (start (Bundled.engineWith analyse around) state s).live events
    x.markdown text = toHtml (x.replaced (parse text)) ∧
      List.Forall₂
        (Filled (Displayed x.pipeline.settings) fun _ => True)
        (Block.allInserts (parse text)) (Block.allInserts (x.replaced (parse text))) := by
  intro x
  have hvouches : Vouches (Bundled.engineWith analyse around) fun d code => d.Tidy ∧ Shows d code :=
    (Pipeline.vouches_tidy (Bundled.tidy_engineWith analyse around)).and
      (vouches_shows (Bundled.faithful_engineWith analyse around))
  have hpasses : ∀ c passes d code, (d.Tidy ∧ Shows d code) →
      (Pass.applyAll passes c d).Tidy ∧ Shows (Pass.applyAll passes c d) code :=
    fun c passes _ _ hd => ⟨Pass.tidy_applyAll _ _ hd.1, hd.2.applyAll c passes⟩
  refine ⟨markdown_eq x text, (filled_page hvouches hpasses state s events (parse text)).imp ?_⟩
  refine fun i j hfilled => hfilled.imp ?_ fun _ _ => trivial
  rintro info text raw ⟨d, ⟨htidy, hshows⟩, hraw⟩
  exact ⟨d, hraw, htidy.tag, hshows.displays⟩

/-- A document of one block of markup is written as it stands. -/
theorem toHtml_html (raw : String) : toHtml [.html raw] = raw := by
  simp [toHtml, Block.allParts, Block.parts, Part.write, Part.writeFrom, Part.chars]

/-- A document of one block of code is written as its wrapper. -/
theorem markdown_of_code {σ : Type} (x : Session σ) {text info t code : String}
    {config : BlockConfig} (h : parse text = [.code info t]) (hcode : sourceOf t = code)
    (hconfig : BlockConfig.ofCode x.pipeline.settings info code = config) :
    x.markdown text =
      Wrapper.render config code (x.render code config.language config none).toHtml ++ "\n" := by
  subst hcode hconfig
  rw [markdown_eq, h]
  exact toHtml_html _

/-- **A lost line.**  A block of the line `a` and an empty one is shown as the line
`a` alone. -/
theorem not_displayed_of_empty_line :
    let x := (start (Bundled.engineWith Syntax.analysis {}) (Bundled.ofSettings {} {}) {}).live []
    let text := "```text\na\n\n```\n"
    codeBlocks (parse text) = [("text", "a\n\n")] ∧
      displayLines "a\n\n".toList = [['a'], []] ∧
      ∃ d : Document, d.lines.map lineText = ["a"] ∧
        x.markdown text = Wrapper.render { language := "text" } "a\n" d.toHtml ++ "\n" := by
  intro x text
  have hparse : parse text = [.code "text" "a\n\n"] := by decide +kernel
  have hcode : sourceOf "a\n\n" = "a\n" := by decide
  have hconfig : BlockConfig.ofCode {} "text" "a\n" = { language := "text" } := by decide +kernel
  have hpage := markdown_of_code x hparse hcode hconfig
  have hshows := shows_render (Bundled.faithful_engineWith Syntax.analysis {})
    (Bundled.ofSettings {} {}) {} [] "a\n" "text" { language := "text" } none
  have hlines : (displayLines "a\n".toList).map String.ofList = ["a"] := by decide
  refine ⟨?_, by decide, _, hshows.trans hlines, hpage⟩
  rw [hparse]
  rfl

end Session

end CodeFence
