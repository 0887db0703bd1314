import CodeFence.Markup.Node
import CodeFence.Proofs.TextCuts

/-!
# Classes of elements

The classes of an element are the words of one attribute, so adding a class
means appending a word, and setting any other attribute means nothing.

* `classes_withClass` — adding a class appends its words, unless it is blank
  or there already;
* `hasClass_withClass` — nothing else is added, and nothing is lost.
-/

namespace CodeFence

namespace Markup.Element

variable (e : Element) (name value : String)

/-- The classes that a value of the attribute names. -/
def classesOf (value : String) : List String :=
  (Text.words value.toList).map String.ofList

theorem classesOf_append_blank (front back : String) :
    classesOf (front ++ " " ++ back) = classesOf front ++ classesOf back := by
  have hcut : (front ++ " " ++ back).toList = front.toList ++ ' ' :: back.toList := by
    simp
  rw [classesOf, hcut, Text.words_append_blank, List.map_append]
  rfl

@[simp] theorem attr?_withAttr_self : (e.withAttr name value).attr? name = some value :=
  lookup_insertEntry_self name value e.attrs

theorem attr?_withAttr_of_ne {other : String} (h : other ≠ name) :
    (e.withAttr name value).attr? other = e.attr? other :=
  lookup_insertEntry_of_ne h value e.attrs

/-- Only one attribute names classes. -/
theorem classes_withAttr_of_ne (h : name ≠ "class") :
    (e.withAttr name value).classes = e.classes := by
  unfold classes
  rw [attr?_withAttr_of_ne e name value (Ne.symm h)]

theorem classes_withAttr_class : (e.withAttr "class" value).classes = classesOf value := by
  unfold classes
  rw [attr?_withAttr_self]
  rfl

/-- **Adding a class.** -/
theorem classes_withClass :
    (e.withClass name).classes =
      if name.isEmpty || e.hasClass name then e.classes else e.classes ++ classesOf name := by
  unfold withClass
  split
  · rfl
  · split
    · rename_i hnone
      rw [classes_withAttr_class]
      simp [classes, hnone]
    · rename_i hempty
      rw [classes_withAttr_class]
      have hno : e.classes = [] := by
        unfold classes
        rw [hempty]
        rfl
      rw [hno, List.nil_append]
    · rename_i old _ hold
      rw [classes_withAttr_class, classesOf_append_blank]
      have hsame : e.classes = classesOf old := by
        unfold classes
        rw [hold]
        rfl
      rw [hsame]

/-- The classes of an element with a class added are its own and the added
one. -/
theorem hasClass_withClass (other : String) :
    (e.withClass name).hasClass other =
      (e.hasClass other || (!e.hasClass name && (classesOf name).contains other)) := by
  have hclasses : (e.withClass name).hasClass other = (e.withClass name).classes.contains other :=
    rfl
  rw [hclasses, classes_withClass]
  by_cases hthere : e.hasClass name = true
  · rw [if_pos (by rw [hthere, Bool.or_true]), hthere]
    exact (Bool.or_false _).symm
  · have hno : e.hasClass name = false := by simpa using hthere
    by_cases hempty : name.isEmpty = true
    · have hname : name = "" := by simpa using hempty
      rw [if_pos (by rw [hempty, Bool.true_or]), hno, hname]
      exact (Bool.or_false _).symm
    · rw [if_neg (by simp [hempty, hno]), List.contains_append, hno]
      rfl

/-- No class is lost. -/
theorem hasClass_withClass_of_hasClass {other : String} (h : e.hasClass other = true) :
    (e.withClass name).hasClass other = true := by
  rw [hasClass_withClass, h, Bool.true_or]

theorem hasClass_withAttr_of_ne {other : String} (h : name ≠ "class") :
    (e.withAttr name value).hasClass other = e.hasClass other := by
  unfold hasClass
  rw [classes_withAttr_of_ne e name value h]

@[simp] theorem children_withAttr : (e.withAttr name value).children = e.children := rfl

@[simp] theorem tag_withAttr : (e.withAttr name value).tag = e.tag := rfl

@[simp] theorem children_withClass : (e.withClass name).children = e.children := by
  unfold withClass
  split
  · rfl
  · split <;> rfl

@[simp] theorem tag_withClass : (e.withClass name).tag = e.tag := by
  unfold withClass
  split
  · rfl
  · split <;> rfl

/-- Adding a class sets no other attribute. -/
theorem attrs_withClass (e : Element) (name : String) :
    (e.withClass name).attrs = e.attrs ∨
      ∃ value, (e.withClass name).attrs = insertEntry "class" value e.attrs := by
  unfold withClass
  split
  · exact Or.inl rfl
  · split <;> exact Or.inr ⟨_, rfl⟩

theorem attr?_withClass_of_ne (e : Element) (name : String) {other : String}
    (h : other ≠ "class") : (e.withClass name).attr? other = e.attr? other := by
  unfold attr?
  rcases attrs_withClass e name with hsame | ⟨value, hattrs⟩
  · rw [hsame]
  · rw [hattrs, lookup_insertEntry_of_ne h]

/-- Adding a class does not look at the children. -/
theorem withClass_setChildren (e : Element) (name : String) (children : List Node) :
    ({ e with children } : Element).withClass name = { e.withClass name with children } := by
  have hclass : ({ e with children } : Element).hasClass name = e.hasClass name := rfl
  have hattr : ({ e with children } : Element).attr? "class" = e.attr? "class" := rfl
  unfold withClass
  rw [hclass, hattr]
  split
  · rfl
  · split <;> rfl

theorem withClass_withClass (e : Element) {name : String}
    (hname : (classesOf name).contains name = true) :
    (e.withClass name).withClass name = e.withClass name := by
  have hthere : (e.withClass name).hasClass name = true := by
    rw [hasClass_withClass, hname, Bool.and_true, Bool.or_not_self]
  rw [withClass, hthere, Bool.or_true, if_pos rfl]

theorem isSome_positionOfClass? (e : Element) (name : String) :
    (e.positionOfClass? name).isSome = e.children.any fun n =>
      n.element?.any (·.hasClass name) :=
  List.findIdx?_isSome

end Markup.Element

end CodeFence
