import Hypertext.Tree

/-!
# What holds of all elements of a tree

`Element.induct` is induction on a tree by the elements among the children of its root, and
`Element.Every p` says that `p` holds of all elements of a tree, the root included.
-/

namespace Hypertext

namespace Element

/-- What holds of an element whenever it holds of the elements among its children holds of every
element. -/
@[elab_as_elim]
theorem induct {motive : Element → Prop}
    (step : ∀ e : Element, (∀ child, .element child ∈ e.children → motive child) → motive e)
    (e : Element) :
  motive e
  := by
  apply step
  intro child hchild
  apply induct step child
termination_by sizeOf e
decreasing_by
  have hsize := List.sizeOf_lt_of_mem hchild
  obtain ⟨tag, attributes, children⟩ := e
  simp only [Node.element.sizeOf_spec, Element.mk.sizeOf_spec] at hsize ⊢
  omega

/-- Whether all elements of a tree have a property. -/
inductive Every (p : Element → Prop) : Element → Prop where
  | intro {e : Element} (root : p e)
      (below : ∀ child, .element child ∈ e.children → Every p child) :
    Every p e

namespace Every

variable {p q : Element → Prop} {e : Element}

/-- What holds of all elements of a tree holds of its root. -/
theorem root (h : e.Every p) :
  p e
  := by
  cases h with
  | intro root below => exact root

/-- What holds of all elements of a tree holds of all elements below a child. -/
theorem child {child : Element} (h : e.Every p) (hchild : .element child ∈ e.children) :
  child.Every p
  := by
  cases h with
  | intro root below => exact below child hchild

/-- A property that elements pass on to their children holds of all elements of a tree if it holds
of the root. -/
theorem of_child (hchild : ∀ e, p e → ∀ child, .element child ∈ e.children → p child) (h : p e) :
  e.Every p
  := by
  induction e using induct with
  | step e ih => exact .intro h fun child hmem => ih child hmem (hchild e h child hmem)

/-- What holds of all elements may be weakened. -/
theorem mono (h : e.Every p) (hpq : ∀ e, p e → q e) :
  e.Every q
  := by
  induction h with
  | intro root below ih => exact .intro (hpq _ root) ih

/-- What holds of all elements holds together. -/
theorem and (hp : e.Every p) (hq : e.Every q) :
  e.Every fun e => p e ∧ q e
  := by
  induction hp with
  | intro root below ih =>
    exact .intro ⟨root, hq.root⟩ fun child hchild => ih child hchild (hq.child hchild)

/-- If the root has a property that not all elements of the tree have, then not all those in one
of its children have it. -/
theorem exists_below (h : ¬e.Every p) (hroot : p e) :
  ∃ child, .element child ∈ e.children ∧ ¬child.Every p
  := by
  apply Classical.byContradiction
  intro hnone
  apply h
  apply Every.intro hroot
  intro child hchild
  apply Classical.byContradiction
  intro hbad
  exact hnone ⟨child, hchild, hbad⟩

end Every

end Element

end Hypertext
