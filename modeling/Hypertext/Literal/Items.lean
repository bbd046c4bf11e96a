import Hypertext.Literal.Normal

/-!
# The parts of a description

A list that describes an element consists of the literal of the tag, the pairs of the attributes and
the literals of the children.  Attributes may be missing, and the children may be given one by one
or as a single list; `attributePairs` and `childItems` take the parts out of what follows the tag,
and `elementOfItems_cons` says that nothing else about the list counts.
-/

namespace Hypertext.Literal

/-- The pairs of the map at the front, if there is one. -/
def attributePairs : List Literal → List (String × Literal)
  | .map pairs :: _ => pairs
  | _ => []

/-- The literals that are read one by one: the items of a single list, unless it starts with a tag,
and else the literals themselves. -/
def listed : List Literal → List Literal
  | [.list items] => if startsWithTag items then [.list items] else items
  | content => content

/-- The literals of the children among what follows a tag. -/
def childItems : List Literal → List Literal
  | .map _ :: content => listed content
  | content => listed content

/-- Children are read one by one, from the literals that stand for them. -/
theorem childrenOfContent_eq (content : List Literal) :
  childrenOfContent content = childrenFrom 0 (listed content)
  := by
  rcases content with _ | ⟨first, _ | ⟨second, rest⟩⟩
  · rfl
  · cases first with
    | list items =>
      rw [childrenOfContent, listed]
      split
      · rw [childrenFrom, child]
        cases elementOfItems items <;> rfl
      · rfl
    | _ => rfl
  · cases first <;> rfl

/-- An element is described by its tag, its attributes and its children. -/
theorem elementOfItems_cons (first : Literal) (rest : List Literal) :
  elementOfItems (first :: rest)
    = match first.tagName? with
      | none => .error (.noTag first)
      | some name => do
        return ⟨name, ← toAttributes (attributePairs rest), ← childrenFrom 0 (childItems rest)⟩
  := by
  rw [elementOfItems]
  cases first.tagName? with
  | none => rfl
  | some name =>
    rcases rest with _ | ⟨second, content⟩
    · rfl
    · cases second with
      | map pairs =>
        simp only [childrenOfContent_eq]
        rfl
      | _ =>
        simp only [childrenOfContent_eq]
        rfl

end Hypertext.Literal
