import Hypertext.Attributes

/-!
# Element trees

An `Element` has a tag, attributes and a list of children, and each child is a `Node`: an
element or a text.  Trees are values: what changes one gives another.

`Element.size` counts the nodes of a tree, texts included, and `Element.textContent` is all text
in it, in document order.  Functions on a tree come in threes, for an element, for a node and
for a list of nodes; the third is the first two carried along the list, as `Node.sizes_eq` and
`Node.textContents_eq` say.
-/

namespace Hypertext

mutual

/-- An element: a tag, attributes and children. -/
structure Element where
  tag : String
  attributes : Attributes
  children : List Node

/-- A child of an element: an element or a text. -/
inductive Node where
  | element (e : Element)
  | text (content : String)

end

theorem Element.eta (e : Element) :
  ⟨e.tag, e.attributes, e.children⟩ = e
  := by
  cases e
  rfl

instance : Inhabited Element := ⟨⟨"", .empty, []⟩⟩

instance : Inhabited Node := ⟨.text ""⟩

/-! ### Size and text -/

mutual

/-- The number of nodes of a tree, the root included. -/
def Element.size : Element → Nat
  | ⟨_, _, children⟩ => Node.sizes children + 1

/-- The number of nodes of a tree, the root included. -/
def Node.size : Node → Nat
  | .element e => e.size
  | .text _ => 1

/-- The number of nodes of several trees. -/
def Node.sizes : List Node → Nat
  | [] => 0
  | n :: ns => n.size + Node.sizes ns

end

mutual

/-- All text of a tree, in document order. -/
def Element.textContent : Element → String
  | ⟨_, _, children⟩ => Node.textContents children

/-- All text of a tree, in document order. -/
def Node.textContent : Node → String
  | .element e => e.textContent
  | .text content => content

/-- All text of several trees, in document order. -/
def Node.textContents : List Node → String
  | [] => ""
  | n :: ns => n.textContent ++ Node.textContents ns

end

/-- The size of an element is one more than those of its children. -/
theorem Element.size_eq (e : Element) :
  e.size = Node.sizes e.children + 1
  := by
  cases e
  rfl

/-- The size of nodes is the sum of theirs. -/
theorem Node.sizes_eq (ns : List Node) :
  Node.sizes ns = ns.foldr (fun n total => n.size + total) 0
  := by
  induction ns with
  | nil => rfl
  | cons n ns ih => simp [Node.sizes, ih]

/-- The text of an element is that of its children. -/
theorem Element.textContent_eq (e : Element) :
  e.textContent = Node.textContents e.children
  := by
  cases e
  rfl

/-- The text of nodes is that of each of them, one after the other. -/
theorem Node.textContents_eq (ns : List Node) :
  Node.textContents ns = String.join (ns.map Node.textContent)
  := by
  rw [← String.toList_inj]
  induction ns with
  | nil => rfl
  | cons n ns ih => simp_all [Node.textContents]

/-! ### Elements -/

namespace Element

/-- The element without attributes and children. -/
def ofTag (tag : String) : Element := ⟨tag, .empty, []⟩

/-- Whether an element has no children. -/
def isEmpty (e : Element) : Bool := e.children.isEmpty

/-- The element with another tag. -/
def setTag (e : Element) (tag : String) : Element := { e with tag }

/-- The element with other attributes. -/
def setAttributes (e : Element) (attributes : Attributes) : Element := { e with attributes }

/-- The element with other children. -/
def setChildren (e : Element) (children : List Node) : Element := { e with children }

/-- The element with one more child at the end. -/
def addChild (e : Element) (child : Node) : Element := e.setChildren (e.children ++ [child])

/-- The element with a function applied to each child. -/
def mapChildren (f : Node → Node) (e : Element) : Element := e.setChildren (e.children.map f)

/-- The element sent through functions, one after the other. -/
def process (e : Element) (steps : List (Element → Element)) : Element :=
  steps.foldl (fun e step => step e) e

end Element

/-! ### Nodes -/

namespace Node

/-- The element that a node is, if it is one. -/
def element? : Node → Option Element
  | .element e => some e
  | .text _ => none

/-- The text that a node is, if it is one. -/
def text? : Node → Option String
  | .element _ => none
  | .text content => some content

/-- Whether a node is a text. -/
def isText (n : Node) : Bool := n.text?.isSome

/-- The tag of an element; a text has none. -/
def tag? (n : Node) : Option String := n.element?.map (·.tag)

/-- The attributes of a node; a text has none. -/
def attributes : Node → Attributes
  | .element e => e.attributes
  | .text _ => .empty

/-- The children of a node; a text has none. -/
def children : Node → List Node
  | .element e => e.children
  | .text _ => []

end Node

end Hypertext
