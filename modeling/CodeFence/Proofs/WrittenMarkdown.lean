import CodeFence.Markdown.Html
import CodeFence.Proofs.MarkdownInserts
import CodeFence.Proofs.WrapperText

/-!
# Wrappers in a written document

A document is written in parts.  Its text and its attributes are escaped, so no
bracket comes from them, and no fixed piece of markup is the beginning of a
wrapper.  So the wrappers that are found in a written document are those that
its blocks of markup hold, in the order of these blocks, as long as each of
these is complete in itself and the markup inside lines holds none.

* `Separate` — texts whose wrappers do not depend on what follows them;
* `Part.Still` — parts in which no wrapper begins;
* `Part.Hold` — parts that hold given wrappers;
* `Inline.still_allParts`, `Block.hold_parts` — the parts of text and of blocks;
* `blockAttributes_toHtml` — the wrappers of a written document.
-/

namespace CodeFence

namespace Wrapper

theorem all_nil : all [] = [] :=
  all_of_no_mark (by decide)

/-- Whatever follows a text, its wrappers come first. -/
def Separate (cs : List Char) : Prop :=
  ∀ rest, all (cs ++ rest) = all cs ++ all rest

/-- Where no wrapper begins, none is found. -/
theorem all_of_avoids {cs : List Char} (h : Text.Avoids mark cs) : all cs = [] := by
  have hall := all_append_of_avoids h []
  rwa [List.append_nil, all_nil] at hall

theorem separate_of_avoids {cs : List Char} (h : Text.Avoids mark cs) : Separate cs := by
  intro rest
  rw [all_of_avoids h, all_append_of_avoids h]
  rfl

theorem Separate.append {cs ds : List Char} (hcs : Separate cs) (hds : Separate ds) :
    Separate (cs ++ ds) := by
  intro rest
  rw [List.append_assoc, hcs, hds, hcs, List.append_assoc]

end Wrapper

namespace Markdown

open Wrapper

/-! ## Parts -/

namespace Part

/-- A part in which no wrapper begins. -/
def Still : Part → Prop
  | markup s => Text.Avoids mark s.toList
  | text _ | value _ | address _ | freshLine => True

instance : DecidablePred Still
  | markup s => Text.decidableAvoids mark s.toList
  | text _ | value _ | address _ | freshLine => isTrue trivial

theorem lt_not_mem_textChar (c : Char) : '<' ∉ textChar c := by
  unfold textChar
  split
  · decide
  · decide
  · decide
  · rename_i hlt _
    simpa using Ne.symm hlt

theorem lt_not_mem_valueChar (c : Char) : '<' ∉ valueChar c := by
  unfold valueChar
  split
  · decide
  · decide
  · exact lt_not_mem_textChar c

theorem lt_not_mem_percent (b : UInt8) : '<' ∉ percent b := by
  have hdigit : ∀ n < 16, '<' ≠ (Nat.digitChar n).toUpper := by decide
  have hhigh : b.toNat / 16 < 16 := Nat.div_lt_of_lt_mul b.toNat_lt
  have hlow : b.toNat % 16 < 16 := Nat.mod_lt _ (by decide)
  simp [percent, hdigit _ hhigh, hdigit _ hlow]

theorem lt_not_mem_addressChar (c : Char) : '<' ∉ addressChar c := by
  have hplain : isAddressChar '<' = false := by decide
  unfold addressChar
  split
  · rename_i hc
    rintro hmem
    rw [← List.mem_singleton.mp hmem, hplain] at hc
    cases hc
  · split
    · exact lt_not_mem_textChar c
    · split
      · decide
      · intro hmem
        obtain ⟨b, -, hb⟩ := List.mem_flatMap.mp hmem
        exact lt_not_mem_percent b hb

/-- **Escaped texts** begin no wrapper, and neither does the end of a line. -/
theorem Still.avoids {p : Part} (h : p.Still) (last : Option Char) :
    Text.Avoids mark (p.chars last) := by
  have hescaped : ∀ {write : Char → List Char}, (∀ c, '<' ∉ write c) → ∀ cs : List Char,
      Text.Avoids mark (cs.flatMap write) := by
    intro write hwrite cs
    refine Text.avoids_of_not_mem fun hmem => ?_
    obtain ⟨c, -, hc⟩ := List.mem_flatMap.mp hmem
    exact hwrite c hc
  cases p with
  | markup s => exact h
  | text s => exact hescaped lt_not_mem_textChar s.toList
  | value s => exact hescaped lt_not_mem_valueChar s.toList
  | address s => exact hescaped lt_not_mem_addressChar s.toList
  | freshLine =>
      rw [chars]
      split
      · trivial
      · decide

/-- A part whose wrappers do not depend on what follows it. -/
def Separate : Part → Prop
  | markup s => Wrapper.Separate s.toList
  | text _ | value _ | address _ | freshLine => True

/-- The wrappers of a part. -/
def wrappers : Part → List BlockAttributes
  | markup s => blockAttributes s
  | text _ | value _ | address _ | freshLine => []

theorem Still.separate {p : Part} (h : p.Still) : p.Separate := by
  cases p with
  | markup s => exact separate_of_avoids h
  | _ => trivial

theorem Still.wrappers_eq {p : Part} (h : p.Still) : p.wrappers = [] := by
  cases p with
  | markup s => exact all_of_avoids h
  | _ => rfl

theorem Separate.chars {p : Part} (h : p.Separate) (last : Option Char) :
    Wrapper.Separate (p.chars last) ∧ all (p.chars last) = p.wrappers := by
  have hstill : p.Still → Wrapper.Separate (p.chars last) ∧ all (p.chars last) = p.wrappers := by
    intro hp
    rw [hp.wrappers_eq]
    exact ⟨separate_of_avoids (hp.avoids last), all_of_avoids (hp.avoids last)⟩
  cases p with
  | markup s => exact ⟨h, rfl⟩
  | _ => exact hstill trivial

/-- Parts that hold given wrappers. -/
structure Hold (parts : List Part) (as : List BlockAttributes) : Prop where
  separate : ∀ p ∈ parts, p.Separate
  wrappers : parts.flatMap Part.wrappers = as

theorem hold_of_still {parts : List Part} (h : ∀ p ∈ parts, p.Still) : Hold parts [] where
  separate p hp := (h p hp).separate
  wrappers := List.flatMap_eq_nil_iff.mpr fun p hp => (h p hp).wrappers_eq

variable {parts others front back : List Part} {as bs : List BlockAttributes}

theorem Hold.append (h : Hold parts as) (h' : Hold others bs) :
    Hold (parts ++ others) (as ++ bs) where
  separate := List.forall_mem_append.mpr ⟨h.separate, h'.separate⟩
  wrappers := by rw [List.flatMap_append, h.wrappers, h'.wrappers]

/-- An element holds what is in it. -/
theorem Hold.around (h : Hold parts as) (hfront : ∀ p ∈ front, p.Still)
    (hback : ∀ p ∈ back, p.Still) : Hold (front ++ parts ++ back) as := by
  have hall := ((hold_of_still hfront).append h).append (hold_of_still hback)
  simpa using hall

/-- **Written parts** hold their wrappers, one after the other. -/
theorem Hold.writeFrom (h : Hold parts as) (last : Option Char) :
    Wrapper.Separate (writeFrom last parts).flatten ∧ all (writeFrom last parts).flatten = as := by
  rw [← h.wrappers]
  have hparts := h.separate
  clear h
  induction parts generalizing last with
  | nil => exact ⟨fun rest => by rw [Part.writeFrom, List.flatten_nil, all_nil]; rfl, all_nil⟩
  | cons p rest ih =>
      obtain ⟨hp, hrest⟩ := List.forall_mem_cons.mp hparts
      -- what a part writes depends on the part before it, but its wrappers do not
      obtain ⟨hfirst, hwrappers⟩ := hp.chars last
      obtain ⟨hbehind, hall⟩ := ih (((p.chars last).getLast?).or last) hrest
      rw [Part.writeFrom, List.flatten_cons, List.flatMap_cons]
      refine ⟨hfirst.append hbehind, ?_⟩
      rw [hfirst, hwrappers, hall]

theorem Hold.blockAttributes_write (h : Hold parts as) : blockAttributes (write parts) = as := by
  rw [blockAttributes, write, String.toList_ofList]
  exact (h.writeFrom none).2

end Part

/-! ## Text -/

/-- An insert whose markup can stand anywhere: no wrapper begins inside a line,
and those of a block do not depend on what follows. -/
def Insert.Separate : Insert → Prop
  | .html raw => Wrapper.Separate raw.toList
  | .inner raw => Text.Avoids mark raw.toList
  | .block _ _ | .span _ => True

/-- The wrappers of a block of markup. -/
def Insert.wrappers : Insert → List BlockAttributes
  | .html raw => blockAttributes raw
  | .block _ _ | .span _ | .inner _ => []

namespace Inline

open Markdown.Part

mutual

/-- A line holds no block. -/
theorem wrappers_inserts (i : Inline) : i.inserts.flatMap Insert.wrappers = [] := by
  cases i with
  | styled style content => exact wrappers_allInserts content
  | link target content => exact wrappers_allInserts content
  | image target content => exact wrappers_allInserts content
  | _ => rfl

theorem wrappers_allInserts (content : List Inline) :
    (allInserts content).flatMap Insert.wrappers = [] := by
  cases content with
  | nil => rfl
  | cons i rest =>
      rw [allInserts, List.flatMap_append, wrappers_inserts i, wrappers_allInserts rest]
      rfl

end

theorem still_titleParts (title : String) : ∀ p ∈ titleParts title, p.Still := by
  unfold titleParts
  split
  · simp
  · exact List.forall_mem_cons.mpr ⟨by decide, by simp [Still]⟩

theorem still_linkStart (target : Target) : ∀ p ∈ linkStart target, p.Still := by
  have hopen : (markup (if target.isMail then "<a href=\"mailto:" else "<a href=\"")).Still := by
    cases target.isMail <;> decide
  have hclose : (markup "\">").Still := by decide
  simp only [linkStart, List.cons_append, List.nil_append, List.forall_mem_cons,
    List.forall_mem_append]
  exact ⟨hopen, trivial, still_titleParts target.title, by simpa using hclose⟩

variable (number : String → String)

mutual

theorem still_parts {i : Inline} (h : ∀ s ∈ i.inserts, s.Separate) :
    ∀ p ∈ i.parts number, p.Still := by
  cases i with
  | text s => simp [parts, Still]
  | code s =>
      have htags : (markup "<code>").Still ∧ (markup "</code>").Still := by decide
      simpa [parts, Still] using htags
  | html raw => simpa [parts, Still, inserts, Insert.Separate] using h
  | softBreak =>
      have htag : (markup "\n").Still := by decide
      simpa [parts] using htag
  | hardBreak =>
      have htag : (markup "<br />\n").Still := by decide
      simpa [parts] using htag
  | task isDone =>
      have htag : (markup (taskMarkup isDone)).Still := by cases isDone <;> decide
      simpa [parts] using htag
  | note label =>
      have htags : (markup "<sup class=\"footnote-reference\"><a href=\"#").Still ∧
          (markup "\">").Still ∧ (markup "</a></sup>").Still := by decide
      simpa [parts, noteParts, Still] using htags
  | styled style content =>
      have htags : (markup ("<" ++ styleTag style ++ ">")).Still ∧
          (markup ("</" ++ styleTag style ++ ">")).Still := by cases style <;> decide
      have hcontent := still_allParts h
      simp only [parts, List.cons_append, List.forall_mem_cons, List.forall_mem_append]
      exact ⟨htags.1, hcontent, by simpa using htags.2⟩
  | link target content =>
      have hclose : (markup "</a>").Still := by decide
      simp only [parts, List.forall_mem_append]
      exact ⟨⟨still_linkStart target, still_allParts h⟩, by simpa using hclose⟩
  | image target content =>
      -- what describes an image is escaped, whatever stands in it
      have htags : (markup "<img src=\"").Still ∧ (markup "\" alt=\"").Still ∧
          (markup "\" />").Still := by decide
      have htitle := still_titleParts target.title
      simp only [parts, imageStart, List.cons_append, List.nil_append, List.forall_mem_cons,
        List.forall_mem_append]
      exact ⟨htags.1, trivial, htags.2.1, trivial, htitle, by simpa using htags.2.2⟩

/-- **Text** begins no wrapper, if no markup in it does. -/
theorem still_allParts {content : List Inline} (h : ∀ s ∈ allInserts content, s.Separate) :
    ∀ p ∈ allParts number content, p.Still := by
  cases content with
  | nil => simp [allParts]
  | cons i rest =>
      rw [allInserts, List.forall_mem_append] at h
      rw [allParts, List.forall_mem_append]
      exact ⟨still_parts h.1, still_allParts h.2⟩

end

end Inline

/-! ## Blocks -/

namespace Block

open Markdown.Part

variable {number : String → String}

/-- A number is no tag. -/
theorem lt_not_mem_toDigits (n : Nat) : '<' ∉ Nat.toDigits 10 n := by
  intro hmem
  have hdigit := Nat.isDigit_of_mem_toDigits (by decide) (by decide) hmem
  exact absurd hdigit (by decide)

theorem still_heading (level : Nat) :
    (markup ("<h" ++ toString level ++ ">")).Still ∧
      (markup ("</h" ++ toString level ++ ">\n")).Still := by
  have hlevel := lt_not_mem_toDigits level
  have hopen : ("<h" ++ toString level ++ ">").toList =
      '<' :: 'h' :: (Nat.toDigits 10 level ++ ['>']) := by simp
  have hclose : ("</h" ++ toString level ++ ">\n").toList =
      '<' :: '/' :: 'h' :: (Nat.toDigits 10 level ++ ['>', '\n']) := by simp
  refine ⟨?_, ?_⟩
  · rw [Still, hopen]
    exact Markup.avoids_tag (by simp [hlevel]) fun _ => rfl
  · rw [Still, hclose]
    exact Markup.avoids_tag (by simp [hlevel]) fun _ => rfl

theorem still_listStart (start : Option Nat) : (markup (listStart start)).Still := by
  unfold listStart
  split
  · decide
  · decide
  · rename_i n _
    have hn := lt_not_mem_toDigits n
    have hopen : ("<ol start=\"" ++ toString n ++ "\">\n").toList =
        '<' :: ("ol start=\"".toList ++ Nat.toDigits 10 n ++ "\">\n".toList) := by simp
    rw [Still, hopen]
    exact Markup.avoids_tag (by simp [hn]) fun _ => rfl

theorem still_rowPartsFrom {name : String} (hname : name ∈ ["th", "td"])
    (alignments : List Alignment) (column : Nat) {cells : List (List Inline)}
    (h : ∀ s ∈ cells.flatMap Inline.allInserts, s.Separate) :
    ∀ p ∈ rowPartsFrom number name alignments column cells, p.Still := by
  have htags : ∀ alignment, ∀ name ∈ ["th", "td"],
      (markup ("<" ++ name ++ alignmentMarkup alignment ++ ">")).Still ∧
        (markup ("</" ++ name ++ ">")).Still := by
    intro alignment
    cases alignment <;> decide
  induction cells generalizing column with
  | nil => simp [rowPartsFrom]
  | cons content rest ih =>
      obtain ⟨hopen, hclose⟩ := htags (alignments.getD column .none) name hname
      rw [List.flatMap_cons, List.forall_mem_append] at h
      simp only [rowPartsFrom, List.cons_append, List.forall_mem_cons, List.forall_mem_append]
      exact ⟨hopen, Inline.still_allParts number h.1, hclose, ih (column + 1) h.2⟩

theorem still_codeStart (info : String) : ∀ p ∈ codeStart info, p.Still := by
  unfold codeStart
  split
  · decide
  · decide
  · have htags : (markup "<pre><code class=\"language-").Still ∧ (markup "\">").Still := by decide
    simpa [Still] using htags

theorem still_table {alignments : List Alignment} {head : List (List Inline)}
    {rows : List (List (List Inline))}
    (h : ∀ s ∈ (table alignments head rows).inserts, s.Separate) :
    ∀ p ∈ (table alignments head rows).parts number, p.Still := by
  have htags : ∀ s ∈ ["<table><thead><tr>", "</tr></thead><tbody>\n", "<tr>", "</tr>\n",
      "</tbody></table>\n"], (markup s).Still := by decide
  simp only [List.forall_mem_cons] at htags
  obtain ⟨htable, hbody, hrow, hrowEnd, hend, -⟩ := htags
  rw [inserts, List.forall_mem_append] at h
  have hhead : ∀ p ∈ rowParts number "th" alignments head, p.Still :=
    still_rowPartsFrom (by decide) alignments 0 h.1
  have hrows : ∀ p ∈ rows.flatMap (fun row => markup "<tr>" ::
      rowParts number "td" alignments row ++ [markup "</tr>\n"]), p.Still := by
    intro p hp
    obtain ⟨row, hmem, hp⟩ := List.mem_flatMap.mp hp
    have hcells : ∀ s ∈ row.flatMap Inline.allInserts, s.Separate := fun s hs =>
      h.2 s (List.mem_flatMap.mpr ⟨row, hmem, hs⟩)
    simp only [List.cons_append, List.mem_cons, List.mem_append, List.not_mem_nil,
      or_false] at hp
    rcases hp with rfl | hp | rfl
    · exact hrow
    · exact still_rowPartsFrom (by decide) alignments 0 hcells p hp
    · exact hrowEnd
  simp only [parts, List.cons_append, List.forall_mem_cons, List.forall_mem_append]
  exact ⟨htable, ⟨hhead, hbody, hrows⟩, by simpa using hend⟩

/-- Text between two tags holds no block. -/
theorem hold_text {content : List Inline} (h : ∀ s ∈ Inline.allInserts content, s.Separate)
    {front back : List Part} (hfront : ∀ p ∈ front, p.Still) (hback : ∀ p ∈ back, p.Still) :
    Hold (front ++ Inline.allParts number content ++ back)
      ((Inline.allInserts content).flatMap Insert.wrappers) := by
  rw [Inline.wrappers_allInserts]
  exact (hold_of_still (Inline.still_allParts number h)).around hfront hback

mutual

theorem hold_parts {b : Block (List Inline)} (h : ∀ s ∈ b.inserts, s.Separate) :
    Hold (b.parts number) (b.inserts.flatMap Insert.wrappers) := by
  cases b with
  | paragraph content =>
      have htags : (∀ p ∈ [freshLine, markup "<p>"], p.Still) ∧
          ∀ p ∈ [markup "</p>\n"], p.Still := by decide
      exact hold_text h htags.1 htags.2
  | plain content =>
      have hcontent : Hold ([] ++ Inline.allParts number content ++ [])
          ((Inline.allInserts content).flatMap Insert.wrappers) :=
        hold_text h (by simp) (by simp)
      simpa [parts, inserts] using hcontent
  | heading level content =>
      have htags := still_heading level
      have hfresh : (freshLine).Still := trivial
      exact hold_text h (by simpa using ⟨hfresh, htags.1⟩) (by simpa using htags.2)
  | rule =>
      have htag : ∀ p ∈ [freshLine, markup "<hr />\n"], p.Still := by decide
      exact hold_of_still htag
  | task isDone =>
      have htag : (markup (Inline.taskMarkup isDone)).Still := by cases isDone <;> decide
      exact hold_of_still (by simpa [parts] using htag)
  | code info s =>
      have hend : (markup "</code></pre>\n").Still := by decide
      refine hold_of_still ?_
      rw [parts, List.forall_mem_append]
      exact ⟨still_codeStart info, by simpa [Still] using hend⟩
  | html raw =>
      have hraw : Wrapper.Separate raw.toList := h (.html raw) List.mem_cons_self
      refine ⟨?_, rfl⟩
      simpa [parts, Part.Separate] using hraw
  | quote children =>
      have htags : (∀ p ∈ [freshLine, markup "<blockquote>\n"], p.Still) ∧
          ∀ p ∈ [markup "</blockquote>\n"], p.Still := by decide
      exact (hold_allParts h).around htags.1 htags.2
  | list start items =>
      have hfresh : (freshLine).Still := trivial
      have hend : (markup (listEnd start.isSome)).Still := by
        unfold listEnd
        split <;> decide
      exact (hold_itemParts h).around (by simpa using ⟨hfresh, still_listStart start⟩)
        (by simpa using hend)
  | table alignments head rows =>
      have hnone : (table alignments head rows).inserts.flatMap Insert.wrappers = [] := by
        simp [inserts, List.flatMap_assoc, Inline.wrappers_allInserts]
      rw [hnone]
      exact hold_of_still (still_table h)
  | footnote label children =>
      have htags : (∀ s ∈ ["<div class=\"footnote-definition\" id=\"",
          "\"><sup class=\"footnote-definition-label\">", "</sup>"], (markup s).Still) ∧
          ∀ p ∈ [markup "</div>\n"], p.Still := by decide
      refine (hold_allParts h).around ?_ htags.2
      simpa [footnoteStart, Still] using htags.1

/-- **Blocks** hold the wrappers of the markup among them, in order. -/
theorem hold_allParts {document : List (Block (List Inline))}
    (h : ∀ s ∈ allInserts document, s.Separate) :
    Hold (allParts number document) ((allInserts document).flatMap Insert.wrappers) := by
  cases document with
  | nil => exact hold_of_still (by simp [allParts])
  | cons b rest =>
      rw [allInserts, List.forall_mem_append] at h
      rw [allParts, allInserts, List.flatMap_append]
      exact (hold_parts h.1).append (hold_allParts h.2)

theorem hold_itemParts {items : List (List (Block (List Inline)))}
    (h : ∀ s ∈ itemInserts items, s.Separate) :
    Hold (itemParts number items) ((itemInserts items).flatMap Insert.wrappers) := by
  cases items with
  | nil => exact hold_of_still (by simp [itemParts])
  | cons item rest =>
      have htags : (∀ p ∈ [freshLine, markup "<li>"], p.Still) ∧
          ∀ p ∈ [markup "</li>\n"], p.Still := by decide
      rw [itemInserts, List.forall_mem_append] at h
      have hall := ((hold_allParts h.1).around htags.1 htags.2).append (hold_itemParts h.2)
      rw [itemInserts, List.flatMap_append]
      simpa [itemParts] using hall

end

end Block

/-- **The wrappers of a document** are those of the markup among its blocks, in
order. -/
theorem blockAttributes_toHtml {document : List (Block (List Inline))}
    (h : ∀ s ∈ Block.allInserts document, s.Separate) :
    blockAttributes (toHtml document) =
      (Block.allInserts document).flatMap Insert.wrappers :=
  (Block.hold_allParts h).blockAttributes_write

end Markdown

end CodeFence
