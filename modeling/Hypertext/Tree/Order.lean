import Hypertext.Path

/-!
# Document order

`Element.visits` lists the nodes of a tree in document order, a node before what is in it and
children from left to right, each with the path above it.  It says where a walk goes.
-/

namespace Hypertext

/-- A node of a tree with its place and the path of the element above it. -/
structure Visit where
  node : Node
  place : Option Nat
  above : Path

namespace Visit

/-- The path of an element, or of the element above a text. -/
def path (v : Visit) : Path :=
  match v.node with
  | .element e => ⟨e, v.place⟩ :: v.above
  | .text _ => v.above

/-- The number of nodes from the root down to a node. -/
def depth (v : Visit) : Nat := v.above.length + 1

/-- The element above a node. -/
def parent? (v : Visit) : Option Element := v.above.head?.map (·.element)

/-- Whether a node is an element whose path passes a test. -/
def selected (accepts : Path → Bool) (v : Visit) : Bool :=
  match v.node with
  | .element _ => accepts v.path
  | .text _ => false

end Visit

mutual

/-- The nodes of a tree in document order, given the path above its root and its place. -/
def Element.visitsBelow (above : Path) (place : Option Nat) : Element → List Visit
  | ⟨tag, attributes, children⟩ =>
    ⟨.element ⟨tag, attributes, children⟩, place, above⟩
      :: Node.visitsFrom (⟨⟨tag, attributes, children⟩, place⟩ :: above) 0 children

/-- The nodes of a tree in document order, given the path above its root and its place. -/
def Node.visitsBelow (above : Path) (place : Nat) : Node → List Visit
  | .element e => e.visitsBelow above (some place)
  | .text content => [⟨.text content, some place, above⟩]

/-- The nodes of several trees in document order, given the path above their roots and the place
of the first. -/
def Node.visitsFrom (above : Path) (place : Nat) : List Node → List Visit
  | [] => []
  | n :: ns => n.visitsBelow above place ++ Node.visitsFrom above (place + 1) ns

end

/-- The nodes of a tree in document order. -/
def Element.visits (e : Element) : List Visit := e.visitsBelow [] none

mutual

/-- Every node of a tree is visited once. -/
theorem Element.length_visitsBelow (above : Path) (place : Option Nat) (e : Element) :
  (e.visitsBelow above place).length = e.size
  := by
  match e with
  | ⟨tag, attributes, children⟩ =>
    rw [Element.visitsBelow, List.length_cons, Node.length_visitsFrom _ _ children, Element.size]

/-- Every node of a tree is visited once. -/
theorem Node.length_visitsBelow (above : Path) (place : Nat) (n : Node) :
  (n.visitsBelow above place).length = n.size
  := by
  match n with
  | .element e => rw [Node.visitsBelow, Element.length_visitsBelow _ _ e, Node.size]
  | .text content => rfl

/-- Every node of several trees is visited once. -/
theorem Node.length_visitsFrom (above : Path) (place : Nat) (ns : List Node) :
  (Node.visitsFrom above place ns).length = Node.sizes ns
  := by
  match ns with
  | [] => rfl
  | n :: ns =>
    rw [Node.visitsFrom, List.length_append, Node.length_visitsBelow _ _ n,
      Node.length_visitsFrom _ _ ns, Node.sizes]

end

end Hypertext
