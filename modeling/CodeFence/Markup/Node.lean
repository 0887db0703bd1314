import CodeFence.Entries
import CodeFence.Markup.Escape
import CodeFence.Text.Split

/-!
# Markup trees

Elements and text.  The attributes of an element are kept in the order of their names, so the
written form of a tree depends on nothing but the tree.
-/

namespace CodeFence.Markup

/-- A node of a markup tree. -/
inductive Node where
  | text (value : String)
  | element (tag : String) (attrs : List (String × String)) (children : List Node)

/-- An element on its own: its tag, its attributes by name, and what it holds. -/
structure Element where
  tag : String
  attrs : List (String × String) := []
  children : List Node := []

/-- The element as a node of a tree. -/
def Element.toNode (e : Element) : Node :=
  .element e.tag e.attrs e.children

/-- The element that a node is, unless it is text. -/
def Node.element? : Node → Option Element
  | .text _ => none
  | .element tag attrs children => some ⟨tag, attrs, children⟩

@[simp] theorem Node.element?_toNode (e : Element) : e.toNode.element? = some e := rfl

/-- Attributes as they stand inside a tag, each after a space. -/
def attrsToHtml : List (String × String) → String
  | [] => ""
  | (name, value) :: rest => " " ++ name ++ "=\"" ++ escape value ++ "\"" ++ attrsToHtml rest

mutual

/-- The written form of a node. -/
def Node.toHtml : Node → String
  | .text value => escape value
  | .element tag attrs children =>
    "<" ++ tag ++ attrsToHtml attrs ++ ">" ++ nodesToHtml children ++ "</" ++ tag ++ ">"

/-- The written form of nodes in a row. -/
def nodesToHtml : List Node → String
  | [] => ""
  | n :: rest => n.toHtml ++ nodesToHtml rest

end

mutual

/-- The text of a node and of everything inside it. -/
def Node.textContent : Node → String
  | .text value => value
  | .element _ _ children => textOfNodes children

/-- The text of nodes in a row. -/
def textOfNodes : List Node → String
  | [] => ""
  | n :: rest => n.textContent ++ textOfNodes rest

end

namespace Element

/-- The value of an attribute. -/
def attr? (e : Element) (name : String) : Option String :=
  e.attrs.lookup name

/-- The element with an attribute set. -/
def withAttr (e : Element) (name value : String) : Element :=
  { e with attrs := insertEntry name value e.attrs }

/-- The element with one more node at its end. -/
def withChild (e : Element) (child : Node) : Element :=
  { e with children := e.children ++ [child] }

/-- The classes of an element are the words of its `class` attribute. -/
def classes (e : Element) : List String :=
  match e.attr? "class" with
  | some value => (Text.words value.toList).map String.ofList
  | none => []

/-- Whether an element carries a class. -/
def hasClass (e : Element) (name : String) : Bool :=
  e.classes.contains name

/-- The element with a class added, unless it is blank or there already. -/
def withClass (e : Element) (name : String) : Element :=
  if name.isEmpty || e.hasClass name then e
  else match e.attr? "class" with
    | none | some "" => e.withAttr "class" name
    | some value => e.withAttr "class" (value ++ " " ++ name)

/-- The first element with a tag among the direct children. -/
def child? (e : Element) (tag : String) : Option Element :=
  (e.children.filterMap Node.element?).find? (·.tag = tag)

/-- The place of the first direct child that carries a class. -/
def positionOfClass? (e : Element) (name : String) : Option Nat :=
  e.children.findIdx? fun n => n.element?.any (·.hasClass name)

/-- The text of everything inside an element. -/
def textContent (e : Element) : String :=
  textOfNodes e.children

/-- The written form of what an element holds. -/
def innerHtml (e : Element) : String :=
  nodesToHtml e.children

/-- The written form of an element. -/
def toHtml (e : Element) : String :=
  e.toNode.toHtml

end Element

end CodeFence.Markup
