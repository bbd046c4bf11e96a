import Hypertext.Tree

/-!
# Equality of trees

`==` compares trees in depth: tags and texts have to be the same, children have to be equal in
order, and attributes have to be the same map, in whatever order they are stored.
-/

namespace Hypertext

mutual

/-- Whether two elements are equal up to the order of attributes. -/
def Element.beq : Element → Element → Bool
  | ⟨tag, attributes, children⟩, ⟨tag', attributes', children'⟩ =>
    tag == tag' && attributes == attributes' && Node.beqs children children'

/-- Whether two nodes are equal up to the order of attributes. -/
def Node.beq : Node → Node → Bool
  | .element e, .element e' => e.beq e'
  | .text content, .text content' => content == content'
  | _, _ => false

/-- Whether two lists of nodes are equal up to the order of attributes. -/
def Node.beqs : List Node → List Node → Bool
  | [], [] => true
  | n :: ns, n' :: ns' => n.beq n' && Node.beqs ns ns'
  | _, _ => false

end

instance : BEq Element := ⟨Element.beq⟩

instance : BEq Node := ⟨Node.beq⟩

/-- Equality of lists of nodes is that of the nodes, place by place. -/
theorem Node.beqs_eq (ns ns' : List Node) :
  Node.beqs ns ns' = (ns == ns')
  := by
  induction ns generalizing ns' with
  | nil => cases ns' <;> rfl
  | cons n ns ih =>
    cases ns' with
    | nil => rfl
    | cons n' ns' => rw [Node.beqs, ih]; rfl

end Hypertext
