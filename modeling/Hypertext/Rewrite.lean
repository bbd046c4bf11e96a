import Hypertext.Walk

/-!
# Rewriting

`Element.rewrite` walks through a tree, gives every element whose path passes a test to a
rewriter, and answers with the rewritten tree.  The test sees the tree as it was; the rewriter
gets an element after the elements inside it, with what they turned into already in place.

`Element.rewriteChildren` goes through the nodes below an element instead, texts included, and
gives each of them, with its parent as it was, to a function that may also leave it alone.
-/

namespace Hypertext

variable {σ : Type}

namespace Walk

/-- Asks the rewriter for the current node if it is selected. -/
def visit (accepts : Path → Bool) (w : Walk σ) : Except Error Unit × Walk σ :=
  if w.selected accepts then w.rewriteCurrent else (.ok (), w)

/-- A visit does not bring the walk nearer to its end. -/
theorem remaining_visit (accepts : Path → Bool) (w : Walk σ) :
  (w.visit accepts).2.remaining = w.remaining
  := by
  rw [visit]
  split
  · exact remaining_rewriteCurrent w
  · rfl

/-- A visit does not end the walk. -/
theorem isEnd_visit (accepts : Path → Bool) (w : Walk σ) :
  (w.visit accepts).2.isEnd = w.isEnd
  := by
  rw [visit]
  split
  · exact isEnd_rewriteCurrent w
  · rfl

/-- Goes on to the end, asking the rewriter for every selected element, up to the first error. -/
def rewriteSelected (accepts : Path → Bool) (w : Walk σ) : Except Error Unit × Walk σ :=
  if _hend : w.isEnd then (.ok (), w)
  else
    match _hvisit : w.visit accepts with
    | (.error e, w') => (.error e, w')
    | (.ok (), w') =>
      match _hnext : w'.next with
      | (.error e, w'') => (.error e, w'')
      | (.ok (), w'') => rewriteSelected accepts w''
termination_by w.remaining
decreasing_by
  have h₁ := remaining_visit accepts w
  have h₂ := isEnd_visit accepts w
  have h₃ := remaining_next w'
  simp_all
  omega

end Walk

/-- The tree with every element whose path passes a test rewritten. -/
def Element.rewrite (accepts : Path → Bool) (f : Rewriter σ) (root : Element) :
    Effect σ Element := fun memory =>
  match (Walk.start root (some f) memory).rewriteSelected accepts with
  | (.error e, w) => (.error e, w.memory)
  | (.ok (), w) =>
    match w.result with
    | some e => (.ok e, w.memory)
    | none => (.error (.illegalRequest .walkStopped), w.memory)

/-! ### Children -/

/-- Tells which nodes take the place of a child of an element; a child may also stay. -/
abbrev ChildRewriter (σ : Type) : Type := Node → Element → Effect σ (Option (List Node))

mutual

/-- The element with the nodes below it rewritten. -/
def Element.rewriteChildren (f : ChildRewriter σ) : Element → Effect σ Element
  | ⟨tag, attributes, children⟩ => do
    let children ← Node.rewriteEach f ⟨tag, attributes, children⟩ children
    return ⟨tag, attributes, children⟩

/-- The node with the nodes below it rewritten. -/
def Node.rewriteBelow (f : ChildRewriter σ) : Node → Effect σ Node
  | .element e => do return .element (← e.rewriteChildren f)
  | .text content => return .text content

/-- The children of an element, rewritten with all below them. -/
def Node.rewriteEach (f : ChildRewriter σ) (parent : Element) :
    List Node → Effect σ (List Node)
  | [] => return []
  | child :: rest => do
    let child ← child.rewriteBelow f
    let nodes ← f child parent
    let more ← Node.rewriteEach f parent rest
    return nodes.getD [child] ++ more

end

end Hypertext
