import Hypertext.Literal.Items

/-!
# What is wrong with a literal

Whether a value fits depends on what it is read as: a map may stand for attributes but not for a
child, and a list may be a child but not the value of an attribute.  `Role` says what a value is
read as, and `Role.fault?` which values do not fit.

`Literal.values` lists all values in a literal that are read, each with its role, in the order in
which they are read: a list that describes an element, its tag, its attributes and then its children
one after the other, each with all that is in it.
-/

namespace Hypertext

/-- What a value in a literal is read as. -/
inductive Role where
  /-- The literal as a whole. -/
  | whole
  /-- A list that describes an element. -/
  | description
  | tag
  | attribute (name : String)
  /-- A child, at a place among the children of its element. -/
  | child (place : Nat)

/-- The error of a value that does not fit its role. -/
def Role.fault? : Role → Literal → Option FormatError
  | .whole, .list _ => none
  | .whole, .element _ => none
  | .whole, .object (.element _) => none
  | .whole, .object (.text content) => some (.objectIsText content)
  | .whole, got => some (.notElement got)
  | .description, .list [] => some .emptyElement
  | .description, _ => none
  | .tag, .tag _ => none
  | .tag, .str _ => none
  | .tag, got => some (.noTag got)
  | .attribute name, .map pairs => some (.attributeValue name (.map pairs))
  | .attribute name, .list items => some (.attributeValue name (.list items))
  | .attribute name, .element e => some (.attributeValue name (.element e))
  | .attribute name, .object asNode => some (.attributeValue name (.object asNode))
  | .attribute _, _ => none
  | .child place, .null => some (.child place .null)
  | .child place, .bool value => some (.child place (.bool value))
  | .child place, .int value => some (.child place (.int value))
  | .child place, .number value => some (.child place (.number value))
  | .child place, .tag name => some (.child place (.tag name))
  | .child place, .map pairs => some (.child place (.map pairs))
  | .child _, _ => none

namespace Literal

theorem sizeOf_listed_le (content : List Literal) :
  sizeOf (listed content) ≤ sizeOf content
  := by
  unfold listed
  split
  · split
    · apply Nat.le_refl
    · simp only [List.cons.sizeOf_spec, Literal.list.sizeOf_spec]
      omega
  · apply Nat.le_refl

theorem sizeOf_childItems_le (rest : List Literal) :
  sizeOf (childItems rest) ≤ sizeOf rest
  := by
  unfold childItems
  split
  · next content =>
    have := sizeOf_listed_le content
    simp only [List.cons.sizeOf_spec]
    omega
  · apply sizeOf_listed_le

mutual

/-- The values in a list that describes an element. -/
def itemValues : List Literal → List (Role × Literal)
  | [] => [(.description, .list [])]
  | first :: rest =>
    (.description, .list (first :: rest)) :: (.tag, first)
      :: ((attributePairs rest).map (fun p => (.attribute p.1, p.2))
        ++ childrenValues 0 (childItems rest))
termination_by items => (sizeOf items, 0)
decreasing_by
  have := sizeOf_childItems_le rest
  simp_wf
  omega

/-- Literals that are read as children, the first of them at a place, and the values in them. -/
def childrenValues (place : Nat) : List Literal → List (Role × Literal)
  | [] => []
  | first :: rest => (.child place, first) :: (valuesWithin first ++ childrenValues (place + 1) rest)
termination_by ls => (sizeOf ls, 1)

/-- The values in a literal that is read as an element or as a child. -/
def valuesWithin : Literal → List (Role × Literal)
  | .list items => itemValues items
  | _ => []
termination_by l => (sizeOf l, 1)

end

/-- There are no values in anything but a list. -/
theorem valuesWithin_of_ne_list {l : Literal} (h : ∀ items, l ≠ .list items) :
  valuesWithin l = []
  := by
  rw [valuesWithin]
  exact h

/-- A literal that is read as an element, and the values in it. -/
def values (l : Literal) : List (Role × Literal) := (.whole, l) :: valuesWithin l

end Literal

end Hypertext
