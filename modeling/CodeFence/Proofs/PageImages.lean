import CodeFence.Markdown.Html

/-!
# The texts of the images on a page

An image is not shown by its content but described by it: the content is flattened
to a text, without the markup of its elements, and that text is an attribute.  So the
texts of the images can be read off the parts that a page is written from, and off the
document as well.

* `Part.alts`, `imageTexts` — the texts of images among the parts of a page;
* `Part.Shows` — parts whose texts of images are known;
* `Inline.allLeaves`, `Block.allImages` — the pieces of text that describe the images
  of a document;
* `imageTexts_eq_map` — the texts on the page, by the document.
-/

namespace CodeFence.Markdown

/-! ## Texts of images on a page -/

namespace Part

/-- The texts of images in parts that are read behind the opening of such a text, or
elsewhere. -/
def altsFrom (opened : Bool) : List Part → List String
  | [] => []
  | value v :: rest => if opened then v :: altsFrom false rest else altsFrom false rest
  | markup s :: rest => altsFrom (s = "\" alt=\"") rest
  | _ :: rest => altsFrom false rest

/-- The texts of images in the parts of a page: each is the value of an attribute
`alt`. -/
def alts (parts : List Part) : List String :=
  altsFrom false parts

/-- Parts whose texts of images are known, wherever they stand, as long as no value
follows. -/
def Shows (parts : List Part) (texts : List String) : Prop :=
  ∀ opened rest, (∀ opened', altsFrom opened' rest = altsFrom false rest) →
    altsFrom opened (parts ++ rest) = texts ++ altsFrom false rest

namespace Shows

variable {parts parts' : List Part} {texts texts' : List String}

theorem nil : Shows [] [] :=
  fun opened _ h => h opened

theorem append (h : Shows parts texts) (h' : Shows parts' texts') :
    Shows (parts ++ parts') (texts ++ texts') := by
  intro opened rest hrest
  have hinner : ∀ opened', altsFrom opened' (parts' ++ rest) = altsFrom false (parts' ++ rest) :=
    fun opened' => (h' opened' rest hrest).trans (h' false rest hrest).symm
  rw [List.append_assoc, List.append_assoc, h opened _ hinner, h' false rest hrest]

theorem markup (s : String) : Shows [.markup s] [] :=
  fun _ _ h => h _

theorem text (s : String) : Shows [.text s] [] :=
  fun _ _ _ => rfl

theorem address (s : String) : Shows [.address s] [] :=
  fun _ _ _ => rfl

theorem freshLine : Shows [.freshLine] [] :=
  fun _ _ _ => rfl

/-- A value of another attribute is no text of an image. -/
theorem value {s : String} (hs : s ≠ "\" alt=\"") (v : String) :
    Shows [.markup s, .value v] [] := by
  intro opened rest _
  change altsFrom (decide (s = "\" alt=\"")) (.value v :: rest) = altsFrom false rest
  rw [decide_eq_false hs]
  rfl

theorem alt (v : String) : Shows [.markup "\" alt=\"", .value v] [v] :=
  fun _ _ _ => rfl

/-- Parts in front of others that show nothing. -/
theorem before {after : List Part} (h : Shows parts texts) (hafter : Shows after []) :
    Shows (parts ++ after) texts := by
  have hall := h.append hafter
  rwa [List.append_nil] at hall

/-- Parts between others that show nothing. -/
theorem between {first last : List Part} (hfirst : Shows first []) (h : Shows parts texts)
    (hlast : Shows last []) : Shows (first ++ parts ++ last) texts :=
  (hfirst.append h).before hlast

theorem flatMap {α : Type} {f : α → List Part} {g : α → List String}
    (h : ∀ a, Shows (f a) (g a)) (as : List α) : Shows (as.flatMap f) (as.flatMap g) := by
  induction as with
  | nil => exact nil
  | cons a as ih => exact (h a).append ih

theorem alts_eq (h : Shows parts texts) : alts parts = texts := by
  have heq := h false [] fun _ => rfl
  rw [List.append_nil] at heq
  exact heq.trans (List.append_nil texts)

end Shows

end Part

/-- The parts that the page for a document is written from. -/
def pageParts (document : List (Block (List Inline))) : List Part :=
  Block.allParts (noteNumber (Block.allLabels document)) document

theorem toHtml_eq_write (document : List (Block (List Inline))) :
    toHtml document = Part.write (pageParts document) := rfl

/-- The texts of the images on the page for a document. -/
def imageTexts (document : List (Block (List Inline))) : List String :=
  Part.alts (pageParts document)

/-! ## Images of a document -/

namespace Inline

mutual

/-- The pieces of text that are left when nothing is set off. -/
def leaves : Inline → List Inline
  | styled _ content | link _ content | image _ content => allLeaves content
  | i => [i]

/-- The pieces of text that are left of pieces of text, in order. -/
def allLeaves : List Inline → List Inline
  | [] => []
  | i :: rest => i.leaves ++ allLeaves rest

end

mutual

/-- The images of a piece of text, each as the pieces of text that describe it. -/
def images : Inline → List (List Inline)
  | image _ content => [allLeaves content]
  | styled _ content | link _ content => allImages content
  | _ => []

/-- The images of pieces of text, in order. -/
def allImages : List Inline → List (List Inline)
  | [] => []
  | i :: rest => i.images ++ allImages rest

end

/-- The code that a piece of text is. -/
def code? : Inline → Option String
  | code s => some s
  | _ => none

/-- What pieces of text that are not set off describe. -/
def describe (number : String → String) (pieces : List Inline) : String :=
  String.join (pieces.map (plainText number))

end Inline

namespace Block

mutual

/-- The images of a block, in order. -/
def images : Block (List Inline) → List (List Inline)
  | paragraph content | plain content | heading _ content => Inline.allImages content
  | quote children | footnote _ children => allImages children
  | list _ items => itemImages items
  | table _ head rows =>
    head.flatMap Inline.allImages ++ rows.flatMap fun row => row.flatMap Inline.allImages
  | rule | task _ | code _ _ | html _ => []

/-- The images of blocks, in order. -/
def allImages : List (Block (List Inline)) → List (List Inline)
  | [] => []
  | b :: rest => b.images ++ allImages rest

/-- The images of items, in order. -/
def itemImages : List (List (Block (List Inline))) → List (List Inline)
  | [] => []
  | item :: rest => allImages item ++ itemImages rest

end

end Block

/-- The code in the images of a document, in order. -/
def codesInImages (document : List (Block (List Inline))) : List String :=
  (Block.allImages document).flatten.filterMap Inline.code?

/-! ## The texts of the images of a document -/

section Texts

variable {number : String → String}

open CodeFence.Markdown.Part (Shows)

namespace Inline

theorem describe_append (pieces others : List Inline) :
    describe number (pieces ++ others) = describe number pieces ++ describe number others := by
  rw [describe, List.map_append, String.join_append]
  rfl

theorem describe_singleton (i : Inline) : describe number [i] = i.plainText number := by
  rw [describe, List.map_singleton, String.join_cons, String.join_nil, String.append_empty]

mutual

theorem plainText_eq_describe (i : Inline) : i.plainText number = describe number i.leaves := by
  cases i with
  | styled style content => exact allPlainText_eq_describe content
  | link target content => exact allPlainText_eq_describe content
  | image target content => exact allPlainText_eq_describe content
  | text s => exact (describe_singleton (.text s)).symm
  | code s => exact (describe_singleton (.code s)).symm
  | html raw => exact (describe_singleton (.html raw)).symm
  | softBreak => exact (describe_singleton .softBreak).symm
  | hardBreak => exact (describe_singleton .hardBreak).symm
  | task isDone => exact (describe_singleton (.task isDone)).symm
  | note label => exact (describe_singleton (.note label)).symm

/-- **A text that describes an image** is made of the pieces that are left when
nothing is set off. -/
theorem allPlainText_eq_describe (content : List Inline) :
    allPlainText number content = describe number (allLeaves content) := by
  cases content with
  | nil => rfl
  | cons i rest =>
      rw [allPlainText, allLeaves, describe_append, plainText_eq_describe i,
        allPlainText_eq_describe rest]

end

theorem shows_titleParts (title : String) : Shows (titleParts title) [] := by
  unfold titleParts
  split
  · exact .nil
  · exact .value (by decide) title

mutual

theorem shows_parts (i : Inline) :
    Shows (i.parts number) (i.images.map (describe number)) := by
  cases i with
  | text s => exact .text s
  | code s => exact (Shows.markup _).append ((Shows.text s).append (.markup _))
  | html raw => exact .markup raw
  | softBreak => exact .markup _
  | hardBreak => exact .markup _
  | task isDone => exact .markup _
  | note label =>
      exact (Shows.value (by decide) label).append
        ((Shows.markup _).append ((Shows.text _).append (.markup _)))
  | styled style content =>
      exact (Shows.markup _).between (shows_allParts content) (.markup _)
  | link target content =>
      have hopening := (((Shows.markup (if target.isMail then "<a href=\"mailto:"
        else "<a href=\"")).append (.address target.url)).append
          (shows_titleParts target.title)).append (.markup "\">")
      exact hopening.between (shows_allParts content) (.markup "</a>")
  | image target content =>
      have halt := Shows.alt (allPlainText number content)
      rw [allPlainText_eq_describe] at halt
      rw [parts, allPlainText_eq_describe]
      exact ((((Shows.markup _).append (.address target.url)).append halt).append
        (shows_titleParts target.title)).append (.markup _)

theorem shows_allParts (content : List Inline) :
    Shows (allParts number content) ((allImages content).map (describe number)) := by
  cases content with
  | nil => exact .nil
  | cons i rest =>
      rw [allImages, List.map_append]
      exact (shows_parts i).append (shows_allParts rest)

end

end Inline

namespace Block

open Inline (describe)

theorem shows_rowPartsFrom (name : String) (alignments : List Alignment) (column : Nat)
    (cells : List (List Inline)) :
    Shows (rowPartsFrom number name alignments column cells)
      ((cells.flatMap Inline.allImages).map (describe number)) := by
  induction cells generalizing column with
  | nil => exact .nil
  | cons cell rest ih =>
      rw [List.flatMap_cons, List.map_append]
      exact ((Shows.markup _).append (Inline.shows_allParts cell)).append
        ((Shows.markup _).append (ih (column + 1)))

theorem shows_codeStart (info : String) : Shows (codeStart info) [] := by
  have hplain : Shows [.freshLine, .markup "<pre><code>"] [] := Shows.freshLine.append (.markup _)
  unfold codeStart
  split
  · exact hplain
  · exact hplain
  · exact Shows.freshLine.append ((Shows.value (by decide) _).append (.markup _))

mutual

theorem shows_parts (b : Block (List Inline)) :
    Shows (b.parts number) (b.images.map (describe number)) := by
  have hfresh (s : String) : Shows [.freshLine, .markup s] [] := Shows.freshLine.append (.markup s)
  cases b with
  | paragraph content => exact (hfresh _).between (Inline.shows_allParts content) (.markup _)
  | plain content => exact Inline.shows_allParts content
  | heading level content =>
      exact (hfresh _).between (Inline.shows_allParts content) (.markup _)
  | rule => exact hfresh _
  | task isDone => exact .markup _
  | code info s => exact (shows_codeStart info).append ((Shows.text s).append (.markup _))
  | html raw => exact .markup raw
  | quote children => exact (hfresh _).between (shows_allParts children) (.markup _)
  | list start items => exact (hfresh _).between (shows_itemParts items) (.markup _)
  | table alignments head rows =>
      have hrow (row : List (List Inline)) := (Shows.markup "<tr>").between
        (@shows_rowPartsFrom number "td" alignments 0 row) (.markup "</tr>\n")
      have hhead := (Shows.markup "<table><thead><tr>").append
        (@shows_rowPartsFrom number "th" alignments 0 head)
      have hrows := (Shows.markup "</tr></thead><tbody>\n").append (Shows.flatMap hrow rows)
      rw [images, List.map_append, List.map_flatMap (l := rows)]
      exact (hhead.append hrows).before (.markup _)
  | footnote label children =>
      have hid : "<div class=\"footnote-definition\" id=\"" ≠ "\" alt=\"" := by decide
      have hopening := Shows.freshLine.append ((Shows.value hid label).append
        ((Shows.markup "\"><sup class=\"footnote-definition-label\">").append
          ((Shows.text (number label)).append (.markup "</sup>"))))
      exact hopening.between (shows_allParts children) (.markup _)

theorem shows_allParts (document : List (Block (List Inline))) :
    Shows (allParts number document) ((allImages document).map (describe number)) := by
  cases document with
  | nil => exact .nil
  | cons b rest =>
      rw [allImages, List.map_append]
      exact (shows_parts b).append (shows_allParts rest)

theorem shows_itemParts (items : List (List (Block (List Inline)))) :
    Shows (itemParts number items) ((itemImages items).map (describe number)) := by
  cases items with
  | nil => exact .nil
  | cons item rest =>
      rw [itemImages, List.map_append]
      have hopening : Shows [.freshLine, .markup "<li>"] [] := Shows.freshLine.append (.markup _)
      exact (hopening.append (shows_allParts item)).append
        ((Shows.markup "</li>\n").append (shows_itemParts rest))

end

end Block

/-- **The texts of images on a page** are those of the images of the document. -/
theorem imageTexts_eq_map (document : List (Block (List Inline))) :
    imageTexts document = (Block.allImages document).map
      (Inline.describe (noteNumber (Block.allLabels document))) :=
  (Block.shows_allParts document).alts_eq

end Texts

end CodeFence.Markdown
