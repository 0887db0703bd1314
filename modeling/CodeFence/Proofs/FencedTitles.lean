import CodeFence.Proofs.CodeBlocks
import CodeFence.Proofs.FenceLines
import CodeFence.Proofs.PageLines
import CodeFence.Proofs.RepairLaws
import CodeFence.Proofs.ResolvedLabels

/-!
# Titles of fenced blocks

The info string of a fence belongs to two languages.  The document resolves its
backslashes and references first, and the directives are read from what is left.  A
label that is written for the directives, with a backslash in front of each quote and
each backslash, has lost just these when the directives are read.

* `resolveOnto_escapeLabel`, `unescape_titled` — what the document resolves in an
  escaped label;
* `FenceLine`, `fence_of_fenceLine` — a fence of backquotes with an info string;
* `BlockConfig.title_ofCode` — the title of a block of code;
* `Session.title_fenced_iff` — when a title that is written for the directives is the
  title of the block;
* `Session.not_title_of_quote` — a label that is not.
-/

namespace CodeFence

namespace Markdown

open InfoString (escapeLabel titled)

variable {keep : Char → Bool} {fuel : Nat} {done cs label : List Char} {q : Char}

/-! ## Resolved info strings -/

theorem resolveOnto_nil (keep : Char → Bool) (fuel : Nat) (done : List Char) :
    resolveOnto keep fuel done [] = done.reverse := by
  cases fuel <;> rfl

/-- A character that begins neither an escape nor a reference is kept or dropped. -/
theorem resolveOnto_char {c : Char} (hbackslash : c ≠ '\\') (hamp : c ≠ '&')
    (rest : List Char) :
    resolveOnto keep (fuel + 1) done (c :: rest) =
      resolveOnto keep fuel (if keep c then c :: done else done) rest := by
  rw [resolveOnto]
  · rintro d more rfl
    exact absurd rfl hbackslash
  · rintro rfl
    exact absurd rfl hamp

/-- What has been resolved goes on behind one more character that is kept or dropped. -/
theorem reverse_filter_cons (c : Char) (more : List Char) :
    (more.filter keep).reverse ++ (if keep c then c :: done else done) =
      ((c :: more).filter keep).reverse ++ done := by
  cases hkeep : keep c <;> simp [hkeep]

/-- Characters of that kind are kept or dropped one by one. -/
theorem resolveOnto_plain (hbackslash : '\\' ∉ cs) (hamp : '&' ∉ cs) (rest : List Char) :
    resolveOnto keep (fuel + cs.length) done (cs ++ rest) =
      resolveOnto keep fuel ((cs.filter keep).reverse ++ done) rest := by
  induction cs generalizing done with
  | nil => rfl
  | cons c more ih =>
      rw [List.mem_cons, not_or] at hbackslash hamp
      rw [List.cons_append, List.length_cons, ← Nat.add_assoc,
        resolveOnto_char (Ne.symm hbackslash.1) (Ne.symm hamp.1), ih hbackslash.2 hamp.2,
        reverse_filter_cons]

/-- **What is resolved** are the backslashes in front of all backslashes and quotes. -/
theorem resolveOnto_escapeLabel (hq : isAsciiPunctuation q = true) (hkeep : keep q = true)
    (hkeep' : keep '\\' = true) (hamp : '&' ∉ label) (rest : List Char) :
    resolveOnto keep (fuel + label.length) done (escapeLabel q label ++ rest) =
      resolveOnto keep fuel ((label.filter keep).reverse ++ done) rest := by
  induction label generalizing done with
  | nil => rfl
  | cons c more ih =>
      rw [List.mem_cons, not_or] at hamp
      rw [InfoString.escapeLabel_cons, List.length_cons, ← Nat.add_assoc, ← reverse_filter_cons,
        ← ih hamp.2]
      by_cases hc : c = '\\' ∨ c = q
      · have hescaped : isAsciiPunctuation c = true ∧ keep c = true := by
          rcases hc with rfl | rfl
          · exact ⟨by decide, hkeep'⟩
          · exact ⟨hq, hkeep⟩
        rw [if_pos hc, if_pos hescaped.2]
        simp only [List.cons_append, List.nil_append, resolveOnto, hescaped.1, if_true]
      · obtain ⟨hbackslash, -⟩ := not_or.mp hc
        rw [if_neg hc, List.append_assoc, List.singleton_append,
          resolveOnto_char hbackslash (Ne.symm hamp.1)]

theorem length_le_length_escapeLabel (q : Char) (label : List Char) :
    label.length ≤ (escapeLabel q label).length := by
  induction label with
  | nil => exact Nat.le_refl 0
  | cons c more ih =>
      rw [InfoString.escapeLabel_cons, List.length_append, List.length_cons]
      split <;> simp only [List.length_cons, List.length_nil] <;> omega

/-- **An escaped label in an info string** stands there as it is once the document has
resolved it, without its carriage returns. -/
theorem unescape_titled (hamp : '&' ∉ label) :
    unescape (titled (escapeLabel '"' label)) = titled (label.filter (· ≠ '\r')) := by
  have hsplit (inner : List Char) :
      titled inner = "text title:\"".toList ++ (inner ++ ['"']) := rfl
  obtain ⟨more, hmore⟩ := Nat.exists_eq_add_of_le (length_le_length_escapeLabel '"' label)
  have hfuel : (titled (escapeLabel '"' label)).length =
      more + 1 + label.length + "text title:\"".toList.length := by
    rw [hsplit, List.length_append, List.length_append, hmore, List.length_singleton]
    omega
  have hlead : "text title:\"".toList.filter (· ≠ '\r') = "text title:\"".toList := by decide
  rw [unescape, hfuel, hsplit, hsplit, resolveOnto_plain (by decide) (by decide),
    resolveOnto_escapeLabel (by decide) (by decide) (by decide) hamp,
    resolveOnto_char (by decide) (by decide), resolveOnto_nil, hlead]
  simp

/-! ## Fences of backquotes -/

/-- A fence of backquotes with an info string, up to a newline: three backquotes or
more, blanks, the info string, and blanks or line ends. -/
def FenceLine (info text : List Char) : Prop :=
  ∃ width lead trail, 3 ≤ width ∧ (∀ c ∈ lead, isSpace c = true) ∧
    (∀ c ∈ trail, isAsciiBlank c = true) ∧
    text = List.replicate width '\x60' ++ (lead ++ (info ++ trail))

/-- An info string without backquotes that no blanks stand around. -/
structure PlainInfo (info : List Char) : Prop where
  backquote : '\x60' ∉ info
  head : ∃ c rest, info = c :: rest ∧ isSpace c = false
  last : ∃ front c, info = front ++ [c] ∧ isAsciiBlank c = false

variable {info text : List Char} {width : Nat}

theorem fence?_backquotes (hwidth : 3 ≤ width) {behind : List Char} (h : '\x60' ∉ behind) :
    fence? (List.replicate width '\x60' ++ behind) = some ⟨'\x60', width⟩ := by
  have hhead : ∀ c ∈ behind.head?, decide (c = '\x60') = false := by
    rintro c hc
    rw [decide_eq_false_iff_not]
    rintro rfl
    exact h (List.mem_of_head? hc)
  have hmarks : ∀ c ∈ List.replicate width '\x60', decide (c = '\x60') = true :=
    fun c hc => decide_eq_true (List.eq_of_mem_replicate hc)
  have htake := (span_append hmarks hhead).1
  have hdrop : (List.replicate width '\x60' ++ behind).drop width = behind :=
    List.drop_left' List.length_replicate
  have hcontains : behind.contains '\x60' = false := by
    rw [← Bool.not_eq_true, List.contains_iff_mem]
    exact h
  obtain ⟨tail, htail⟩ : ∃ tail, List.replicate width '\x60' ++ behind = '\x60' :: tail := by
    obtain ⟨n, rfl⟩ : ∃ n, width = n + 1 := ⟨width - 1, by omega⟩
    exact ⟨_, rfl⟩
  rw [htail] at htake hdrop ⊢
  unfold fence?
  dsimp only
  rw [htake, List.length_replicate, hdrop, hcontains, if_pos rfl,
    if_pos ⟨hwidth, Bool.false_ne_true⟩]

/-- **A fence is found**, and its info string. -/
theorem fence_of_fenceLine (h : FenceLine info text) (hinfo : PlainInfo info) :
    ∃ f, fence? text = some f ∧ f.info text = String.ofList (unescape info) := by
  obtain ⟨width, lead, trail, hwidth, hlead, htrail, rfl⟩ := h
  have hbackquote : '\x60' ∉ lead ++ (info ++ trail) := by
    simp only [List.mem_append, not_or]
    exact ⟨fun hmem => absurd (hlead _ hmem) (by decide), hinfo.backquote,
      fun hmem => absurd (htrail _ hmem) (by decide)⟩
  refine ⟨_, fence?_backquotes hwidth hbackquote, ?_⟩
  have hbehind : (lead ++ (info ++ trail)).dropWhile isSpace = info ++ trail := by
    obtain ⟨c, rest, rfl, hc⟩ := hinfo.head
    have hstop : ∀ a ∈ (c :: rest ++ trail).head?, isSpace a = false := by
      intro a ha
      obtain rfl := Option.some.inj ha
      exact hc
    exact (span_append hlead hstop).2
  have htrimmed : ((info ++ trail).reverse.dropWhile isAsciiBlank).reverse = info := by
    obtain ⟨front, c, rfl, hc⟩ := hinfo.last
    rw [List.reverse_append]
    have hblank : ∀ a ∈ trail.reverse, isAsciiBlank a = true :=
      fun a ha => htrail a (List.mem_reverse.mp ha)
    have hstop : ∀ a ∈ (front ++ [c]).reverse.head?, isAsciiBlank a = false := by
      intro a ha
      rw [List.reverse_append] at ha
      obtain rfl := Option.some.inj ha
      exact hc
    rw [(span_append hblank hstop).2, List.reverse_reverse]
  rw [Fence.info, List.drop_left' List.length_replicate, hbehind, htrimmed]

theorem mem_of_mem_escapeLabel {c : Char} (h : c ∈ escapeLabel q label) : c = '\\' ∨ c ∈ label := by
  obtain ⟨d, hd, hc⟩ := List.mem_flatMap.mp h
  split at hc
  · rcases List.mem_cons.mp hc with rfl | hc
    · exact Or.inl rfl
    · exact Or.inr (List.mem_singleton.mp hc ▸ hd)
  · exact Or.inr (List.mem_singleton.mp hc ▸ hd)

theorem plainInfo_titled {inner : List Char} (h : '\x60' ∉ inner) : PlainInfo (titled inner) where
  backquote := by
    intro hmem
    rcases List.mem_append.mp hmem with hlead | hquoted
    · exact absurd hlead (by decide)
    · rcases List.mem_append.mp hquoted with hopen | hclose
      · rcases List.mem_cons.mp hopen with heq | hinner
        · exact absurd heq (by decide)
        · exact h hinner
      · exact absurd hclose (by decide)
  head := ⟨'t', _, rfl, by decide⟩
  last := ⟨"text title:".toList ++ '"' :: inner, '"', (List.append_assoc _ _ _).symm, by decide⟩

end Markdown

/-! ## Titles -/

/-- The configuration of a block of code has the title that was read. -/
theorem BlockConfig.title_ofCode (s : Settings) (info code : String) :
    (ofCode s info code).title = (InfoString.parse info).config.title := by
  have hlabels := (InfoString.parse_inModel info).1.title
  have hrepaired : (InfoString.parse info).config.repaired.title =
      (InfoString.parse info).config.title := by
    unfold repaired
    split
    · rfl
    · exact bind_capLabel_eq_self_iff.mpr hlabels
  rcases ofCode_cases s info code with heq | ⟨language, -, heq⟩ <;> rw [heq] <;> exact hrepaired

namespace Session

open Markdown InfoString

variable {σ : Type}

/-- **A title that is written for the directives**, behind a fence in a document.  Read
on its own, the info string gives the label as the title.  The document resolves it
before the directives are read.  So the page has a block of code whose info string is
the label between quotes, without its backslashes and carriage returns; and this gives
the label as the title exactly if the label has no carriage returns, if no blank cuts
it off from its quotes, and if no backslash of its own is resolved. -/
theorem title_fenced_iff (x : Session σ) (document : String) {label : String}
    {text : List Char} (hne : label ≠ "") (hmax : label.length ≤ 200)
    (hbackquote : '\x60' ∉ label.toList) (hamp : '&' ∉ label.toList)
    (hline : FenceLine (titled (escapeLabel '"' label.toList)) text)
    (hfenced : Fenced document text) :
    (InfoString.parse (String.ofList (titled (escapeLabel '"' label.toList)))).config.title =
        some label ∧
      ∃ info body html,
        info = String.ofList (titled (label.toList.filter (· ≠ '\r'))) ∧
        (info, body) ∈ codeBlocks (Markdown.parse document) ∧
        .html (Wrapper.render (.ofCode x.pipeline.settings info (sourceOf body)) (sourceOf body)
          html ++ "\n") ∈ Block.allInserts (x.replaced (Markdown.parse document)) ∧
        ((BlockConfig.ofCode x.pipeline.settings info (sourceOf body)).title = some label ↔
          '\r' ∉ label.toList ∧ wordChars (quoted label.toList) = [quoted label.toList] ∧
            unescapeLabel label.toList = label.toList) := by
  refine ⟨title_titled_escapeLabel hne hmax, ?_⟩
  -- the fence begins a block of code, and its info string has been resolved
  have hescaped : '\x60' ∉ escapeLabel '"' label.toList := fun hmem =>
    (mem_of_mem_escapeLabel hmem).elim (by decide) hbackquote
  obtain ⟨f, hfence, hinfo⟩ := fence_of_fenceLine hline (plainInfo_titled hescaped)
  rw [unescape_titled hamp] at hinfo
  obtain ⟨body, hcode⟩ := exists_mem_codeBlocks_of_fenced hfenced hfence
  rw [hinfo] at hcode
  obtain ⟨html, hwrapper⟩ := exists_wrapper_of_mem_codeBlocks x hcode
  refine ⟨_, body, html, rfl, hcode, hwrapper, ?_⟩
  -- and what the directives make of it is known
  have hkept : label.toList.filter (· ≠ '\r') = label.toList ↔ '\r' ∉ label.toList := by
    rw [List.filter_eq_self]
    simp only [decide_eq_true_eq, ne_eq]
    exact ⟨fun h hmem => h _ hmem rfl, fun h c hc heq => h (heq ▸ hc)⟩
  rw [BlockConfig.title_ofCode, title_titled_eq_some_iff hne hmax List.filter_sublist, hkept]

/-- Quotes around one word of a label leave the label whole, here in a block quote. -/
theorem title_fenced_iff_quotes :
    let x := start (Bundled.engineWith Syntax.analysis {}) (Bundled.ofSettings {} {}) {}
    let document := "> ```text title:\"a \\\"b\\\" c\"\n> x\n"
    Fenced document "```text title:\"a \\\"b\\\" c\"\n".toList ∧
      ∃ info body html,
        .html (Wrapper.render (.ofCode x.pipeline.settings info (sourceOf body)) (sourceOf body)
          html ++ "\n") ∈ Block.allInserts (x.replaced (Markdown.parse document)) ∧
        (BlockConfig.ofCode x.pipeline.settings info (sourceOf body)).title =
          some "a \"b\" c" := by
  intro x document
  have hlines : linesOf document.toList =
      [⟨"> ```text title:\"a \\\"b\\\" c\"".toList, ['\n']⟩, ⟨"> x".toList, ['\n']⟩] := by decide +kernel
  have hfenced : Fenced document "```text title:\"a \\\"b\\\" c\"\n".toList := by
    refine ⟨{}, ⟨"> ```text title:\"a \\\"b\\\" c\"".toList, ['\n']⟩,
      [⟨"> x".toList, ['\n']⟩], ?_, ?_, ?_, ?_⟩
    · rw [hlines]
      exact .here _ _
    · decide +kernel
    · decide +kernel
    · decide +kernel
  have hline : FenceLine (titled (escapeLabel '"' "a \"b\" c".toList))
      "```text title:\"a \\\"b\\\" c\"\n".toList :=
    ⟨3, [], ['\n'], Nat.le_refl 3, List.forall_mem_nil _, List.forall_mem_singleton.mpr (by decide),
      by decide⟩
  obtain ⟨-, info, body, html, -, -, hwrapper, htitle⟩ :=
    title_fenced_iff x document (by decide) (by decide) (by decide) (by decide) hline hfenced
  exact ⟨hfenced, info, body, html, hwrapper,
    htitle.mpr ⟨by decide, by decide +kernel, by decide⟩⟩

/-- **A quote in front of a blank** ends the title, although a backslash has been
written in front of it. -/
theorem not_title_of_quote :
    let x := (start (Bundled.engineWith Syntax.analysis {}) (Bundled.ofSettings {} {}) {}).live []
    let label := "a\" b"
    let info := "text title:\"a\\\" b\""
    info = String.ofList (titled (escapeLabel '"' label.toList)) ∧
      (InfoString.parse info).config.title = some label ∧
      ∃ html, x.markdown ("```" ++ info ++ "\nx\n```\n") =
        Wrapper.render { language := "text", title := some "a" } "x" html ++ "\n" := by
  intro x label info
  have hparse : Markdown.parse ("```" ++ info ++ "\nx\n```\n") =
      [.code "text title:\"a\" b\"" "x\n"] := by decide +kernel
  have hconfig : BlockConfig.ofCode {} "text title:\"a\" b\"" "x" =
      { language := "text", title := some "a" } := by decide +kernel
  exact ⟨by decide, by decide +kernel, _, markdown_of_code x hparse (by decide) hconfig⟩

end Session

end CodeFence
