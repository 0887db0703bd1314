import CodeFence.Proofs.CacheTransparency
import CodeFence.Proofs.DocumentLines
import CodeFence.Proofs.EscapedText
import CodeFence.Proofs.ThemeIds

/-!
# Code inside a line and the cache

A piece of code inside a line is answered as markup, or, if no engine rendered
it, as escaped text.  An entry of the cache does not say which of the two it
was: a hit takes every document for plain text whose root has the class
`plain`.  The root of a colored block has the id of its theme for a class, so
this goes wrong for one theme.

* `hasClass_plain_renderDocument` — which colored blocks are taken for plain;
* `innerCodeHtml_ne_escape` — a colored block is never answered by escaped
  text;
* `renderInline_eq_iff` — the cache shows in an answer exactly if a user's
  theme has the id `plain`, the code is found in the cache, and it was colored.
-/

namespace CodeFence

open Markup

theorem hasClass_plain_plain (code : String) :
    (Document.plain code).root.hasClass "plain" = true := by
  have hclass : (Element.classesOf "fencelight plain").contains "plain" = true := by
    decide +kernel
  exact hclass

/-- Escaped text opens no element. -/
theorem lt_not_mem_escape (code : String) : '<' ∉ (escape code).toList :=
  delimiter_not_mem_escape (by decide) code

/-- Nodes one of which is an element are written with a bracket. -/
theorem lt_mem_nodesToHtml {nodes : List Node} {n : Node} {e : Element} (hn : n ∈ nodes)
    (he : n.element? = some e) : '<' ∈ (nodesToHtml nodes).toList := by
  induction nodes with
  | nil => cases hn
  | cons m rest ih =>
      rw [nodesToHtml, String.toList_append, List.mem_append]
      rcases List.mem_cons.mp hn with rfl | hrest
      · left
        cases n with
        | text value => cases he
        | element tag attrs children => simp [Node.toHtml]
      · exact Or.inr (ih hrest)

namespace Bundled

/-- The classes of a colored block are those of all blocks and the id of its
theme. -/
theorem hasClass_plain_renderDocument (code : String) (highlights : Syntax.Highlights)
    {theme : Theme} (hsafe : Theme.isSafeId theme.id = true) :
    (renderDocument code highlights theme).root.hasClass "plain" =
      decide (theme.id = "plain") := by
  let pre : Element := ({ tag := "pre" } : Element).withClass "fencelight"
  have hpre : pre.hasClass "plain" = false := by decide +kernel
  have hroot : (renderDocument code highlights theme).root.hasClass "plain" =
      (((pre.withClass theme.id).withAttr "data-theme" theme.id).withAttr "style"
        (themeStyle theme)).hasClass "plain" := rfl
  rw [hroot, Element.hasClass_withAttr_of_ne _ _ _ (by decide),
    Element.hasClass_withAttr_of_ne _ _ _ (by decide), Element.hasClass_withClass, hpre,
    Theme.classesOf_of_isSafeId hsafe]
  by_cases hid : theme.id = "plain"
  · rw [hid, hpre]
    rfl
  · simp [hid, Ne.symm hid]

/-- A colored block opens an element. -/
theorem lt_mem_innerCodeHtml (code : String) (highlights : Syntax.Highlights) (theme : Theme) :
    '<' ∈ (renderDocument code highlights theme).innerCodeHtml.toList := by
  unfold renderDocument Document.innerCodeHtml
  rw [code?_ofLines (by simp)]
  dsimp only
  generalize hlines : (displayLines code.toList).mapIdx (fun row line =>
    renderLine theme (highlights.onRow row) line) = lines
  have hsome : lines ≠ [] := by
    rw [← hlines]
    simp [displayLines, Text.splitAt, Text.splitWhere_ne_nil]
  obtain ⟨e, rest, hcons⟩ := List.exists_cons_of_ne_nil hsome
  have hmem : e ∈ ((lines.map Element.toNode).intersperse (.text "\n")).filterMap
      Node.element? := by
    rw [filterMap_element?_intersperse, hcons]
    exact List.mem_cons_self
  obtain ⟨n, hn, he⟩ := List.mem_filterMap.mp hmem
  exact lt_mem_nodesToHtml hn he

theorem innerCodeHtml_ne_escape (code : String) (highlights : Syntax.Highlights)
    (theme : Theme) :
    (renderDocument code highlights theme).innerCodeHtml ≠ escape code := by
  intro heq
  have hmem := lt_mem_innerCodeHtml code highlights theme
  rw [heq] at hmem
  exact lt_not_mem_escape code hmem

variable {analyse : Syntax.Analysis} {around : Surroundings}

/-- What one attempt gives is a block in the colors of the theme. -/
theorem attempted_eq_some {directories : List String} {code language theme : String}
    {d : Document}
    (h : (stable analyse around).attempted directories code language theme = some d) :
    ∃ highlights t, Theme.load around.files theme directories = .ok t ∧
      d = renderDocument code highlights t := by
  unfold StableEngine.attempted at h
  split at h
  · cases h
  · rename_i l _
    split at h
    · change (rendition analyse around directories code l theme).toOption = some d at h
      unfold rendition at h
      split at h
      · rename_i known t _ hload
        cases h
        exact ⟨tokens analyse code known, t, hload, rfl⟩
      · cases h
      · cases h
    · cases h

/-- What the chain of fallbacks gives is colored or plain. -/
theorem produce_cases (analyse : Syntax.Analysis) (around : Surroundings)
    (directories : List String) (fallback code language theme : String) :
    let r := (stable analyse around).produce directories fallback code language theme
    r = (Document.plain code, .plain) ∨
      r.2 ≠ .plain ∧ ∃ highlights t, Theme.load around.files theme directories = .ok t ∧
        r.1 = renderDocument code highlights t := by
  intro r
  cases hfirst : (stable analyse around).attempted directories code language theme with
  | some d =>
      right
      have hr : r = (d, .rendered) := by simp only [r, StableEngine.produce, hfirst]
      rw [hr]
      exact ⟨by simp, attempted_eq_some hfirst⟩
  | none =>
      cases hsecond : (stable analyse around).attempted directories code fallback theme with
      | some d =>
          right
          have hr : r = (d, .fallback) := by
            simp only [r, StableEngine.produce, hfirst, hsecond]
          rw [hr]
          exact ⟨by simp, attempted_eq_some hsecond⟩
      | none =>
          left
          simp only [r, StableEngine.produce, hfirst, hsecond]

end Bundled

namespace Session

open Pipeline

variable {σ : Type}

/-- The display mode does not depend on anything but what set it. -/
theorem mode_run {x y : Session σ} (h : x.pipeline.mode = y.pipeline.mode)
    (operations : List Operation) :
    (x.run operations).pipeline.mode = (y.run operations).pipeline.mode := by
  induction operations generalizing x y with
  | nil => exact h
  | cons o rest ih =>
      refine ih ?_
      cases o with
      | preload =>
          exact (preload_onlyLoads x.pipeline).mode.trans
            (h.trans (preload_onlyLoads y.pipeline).mode.symm)
      | render code language config asked =>
          exact (highlighted_frame _ _ _ _ x.pipeline).mode.trans
            (h.trans (highlighted_frame _ _ _ _ y.pipeline).mode.symm)
      | renderInline code language =>
          exact (highlighted_frame _ _ _ _ x.pipeline).mode.trans
            (h.trans (highlighted_frame _ _ _ _ y.pipeline).mode.symm)
      | setMode mode => rfl
      | clearCache => exact h
      | wait milliseconds => exact h

/-- What is answered for a rendering of code inside a line. -/
def inlineAnswer (code : String) (r : Document × Outcome) : String :=
  if r.2 = .plain then escape code else r.1.innerCodeHtml

/-- What is answered for a document that the cache has found: the class of its
root says whether it is taken for plain text. -/
def cachedAnswer (code : String) (d : Document) : String :=
  if d.root.hasClass "plain" then escape code else d.innerCodeHtml

theorem renderInline_eq (x : Session σ) (code language : String) :
    x.renderInline code language =
      inlineAnswer code (highlighted code language
        (x.pipeline.resolveTheme { language } none) x.now x.pipeline).1 := by
  rw [Session.renderInline, renderInline_run]
  rfl

theorem inlineAnswer_of_hit {E : StableEngine σ} {w : E.Place} {fallback : String}
    {p : Pipeline σ} (hp : Stocked E w (· = fallback) p) (henabled : p.settings.cacheEnabled = true)
    {code language theme : String} {now : Nat}
    (hhit : (p.cache.get (.of code language theme) code now).1.isSome = true) :
    inlineAnswer code (highlighted code language theme now p).1 =
      cachedAnswer code (E.produce w fallback code language theme).1 := by
  obtain ⟨found, hfound⟩ := Option.isSome_iff_exists.mp hhit
  have hdocument := hp.highlighted_document code language theme now
  rw [highlighted_of_hit henabled hfound] at hdocument ⊢
  have hd : found = (E.produce w fallback code language theme).1 := hdocument
  rw [← hd]
  unfold inlineAnswer cachedAnswer
  cases found.root.hasClass "plain" <;> rfl

/-- A document from the cache is taken for what it is, unless it is colored in
a theme with the id `plain`. -/
theorem cachedAnswer_eq_iff (analyse : Syntax.Analysis) (around : Surroundings)
    (directories : List String) (fallback code language theme : String) :
    let r := (Bundled.stable analyse around).produce directories fallback code language theme
    cachedAnswer code r.1 = inlineAnswer code r ↔ ¬ (theme = "plain" ∧ r.2 ≠ .plain) := by
  intro r
  rcases Bundled.produce_cases analyse around directories fallback code language theme with
    hplain | ⟨hcolored, highlights, t, hload, hdocument⟩
  · have hr : r = (Document.plain code, .plain) := hplain
    rw [hr, cachedAnswer, if_pos (hasClass_plain_plain code)]
    simp [inlineAnswer]
  · have hr : r.2 ≠ .plain := hcolored
    have hd : r.1 = Bundled.renderDocument code highlights t := hdocument
    have hclass := Bundled.hasClass_plain_renderDocument code highlights
      (by rw [Theme.load_id hload]; exact Theme.isSafeId_of_load hload)
    rw [Theme.load_id hload] at hclass
    rw [inlineAnswer, if_neg hr, hd, cachedAnswer, hclass]
    by_cases hid : theme = "plain"
    · have hne := Bundled.innerCodeHtml_ne_escape code highlights t
      constructor
      · intro heq
        rw [if_pos (decide_eq_true hid)] at heq
        exact absurd heq.symm hne
      · intro hnot
        exact absurd ⟨hid, hr⟩ hnot
    · simp [hid]

/-- **The cache and code inside a line.**  Over the bundled engine, and after
the same operations with a cache and without one, code inside a line is
answered alike, unless its theme has the id `plain`, the cache finds the code,
and without the cache it is colored. -/
theorem renderInline_eq_iff (analyse : Syntax.Analysis) (around : Surroundings) (s : Settings)
    (operations : List Operation) (code language : String) :
    let session (enabled : Bool) :=
      (start (Bundled.engineWith analyse around) (Bundled.ofSettings around s)
        { s with cacheEnabled := enabled }).run operations
    let theme := (session false).pipeline.resolveTheme { language } none
    (session true).renderInline code language = (session false).renderInline code language ↔
      ¬ (theme = "plain" ∧
        ((session true).pipeline.cache.get (.of code language theme) code
          (session true).now).1.isSome = true ∧
        (renderSomehow code language theme (session false).pipeline).1.2 ≠ .plain) := by
  intro session theme
  let E := Bundled.stable analyse around
  let w := E.placeOf s.customThemePath
  have hstocked : ∀ enabled, Stocked E w (· = s.fallbackLanguage) (session enabled).pipeline :=
    fun enabled =>
      stocked_run (Bundled.serves_ofSettings around s) { s with cacheEnabled := enabled } operations
  have hsettings : ∀ enabled, (session enabled).pipeline.settings =
      { s with cacheEnabled := enabled } := fun enabled =>
    (lasting_settings { s with cacheEnabled := enabled }).run rfl operations
  have htheme : (session true).pipeline.resolveTheme { language } none = theme := by
    have hmode : (session true).pipeline.mode = (session false).pipeline.mode := by
      refine mode_run ?_ operations
      rfl
    change _ = (session false).pipeline.resolveTheme { language } none
    unfold resolveTheme
    rw [hsettings, hsettings, hmode]
  have hsomehow : (renderSomehow code language theme (session false).pipeline).1 =
      E.produce w s.fallbackLanguage code language theme := by
    rw [(hstocked false).renderSomehow_eq_produce, hsettings]
  have hwithout : (session false).renderInline code language =
      inlineAnswer code (E.produce w s.fallbackLanguage code language theme) := by
    rw [renderInline_eq, (hstocked false).highlighted_eq_produce (by simp [hsettings]), hsettings]
  rw [renderInline_eq, htheme, hwithout, hsomehow]
  -- Without a hit both sessions make the same answer; with one, the answer is read off
  -- the document in the cache.
  cases hhit : ((session true).pipeline.cache.get (.of code language theme) code
    (session true).now).1.isSome with
  | false =>
      have hmiss := Option.isSome_eq_false_iff.mp hhit
      rw [(hstocked true).highlighted_eq_produce fun _ => Option.isNone_iff_eq_none.mp hmiss,
        hsettings]
      simp
  | true =>
      rw [inlineAnswer_of_hit (hstocked true) (by rw [hsettings]) hhit]
      have hanswer : cachedAnswer code (E.produce w s.fallbackLanguage code language theme).1 =
          inlineAnswer code (E.produce w s.fallbackLanguage code language theme) ↔
          ¬ (theme = "plain" ∧ (E.produce w s.fallbackLanguage code language theme).2 ≠ .plain) :=
        cachedAnswer_eq_iff analyse around w s.fallbackLanguage code language theme
      rw [hanswer]
      simp

/-- **A styled piece of code turns plain.**  A user's theme with the id `plain`
colors the code at first, and the answer from the cache is the bare text. -/
theorem renderInline_ne_of_plain_theme :
    let text :=
      "version: 1\nname: Plain\ncolors:\n  background: \"#000000\"\n  foreground: \"#ffffff\"\n"
    let around : Surroundings := {
      files := { entries :=
        [(["fencelight"], .directory), (["fencelight", "themes"], .directory),
         (["fencelight", "themes", "plain.yaml"], .file text.toUTF8)] }
      environment := { configHome := some "/" } }
    let s : Settings := { defaultTheme := "plain", autoThemeSwitch := false }
    let session (enabled : Bool) :=
      (start (Bundled.engine around) (Bundled.ofSettings around s)
        { s with cacheEnabled := enabled }).run [.renderInline "x" "text"]
    (session true).renderInline "x" "text" ≠ (session false).renderInline "x" "text" := by
  decide +kernel

end Session

end CodeFence
