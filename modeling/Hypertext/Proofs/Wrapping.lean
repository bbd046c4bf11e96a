import Hypertext.Proofs.Replaced
import Hypertext.Tree.Every

/-!
# Wrapping and unwrapping

Wrapping puts each element of a selection into a new one, and unwrapping replaces every element of a
given tag by its children.  Wrapping in elements of a tag that the tree does not have and unwrapping
that tag gives the tree back, as `Selection.unwrap_wrap` says, also if wrapped elements are in one
another or the root is wrapped.
-/

namespace Hypertext

/-- An element in a new one. -/
def Element.wrapper (tag : String) (attributes : Attributes) (e : Element) : Element :=
  ⟨tag, attributes, [.element e]⟩

/-- Whether the first element of a path has a tag. -/
def Path.hasTag (tag : String) (p : Path) : Bool := p.head?.any fun step => step.element.tag == tag

section

variable {accepts : Path → Bool} {tag : String} {attributes : Attributes}

/-- Unwrapping an element with the tag leaves its children, unwrapped. -/
theorem Element.replaced_of_tag (above : Path) (place : Option Nat) {e : Element}
    (h : e.tag = tag) :
  e.replaced (Path.hasTag tag) (·.children) above place
    = Node.replacedAll (Path.hasTag tag) (·.children) (⟨e, place⟩ :: above) 0 e.children
  := by
  obtain ⟨name, own, children⟩ := e
  rw [Element.replaced, if_pos]
  simpa [Path.hasTag] using h

/-- Unwrapping an element with another tag keeps it, with its children unwrapped. -/
theorem Element.replaced_of_ne_tag (above : Path) (place : Option Nat) {e : Element}
    (h : e.tag ≠ tag) :
  e.replaced (Path.hasTag tag) (·.children) above place
    = [.element (e.setChildren
        (Node.replacedAll (Path.hasTag tag) (·.children) (⟨e, place⟩ :: above) 0 e.children))]
  := by
  obtain ⟨name, own, children⟩ := e
  rw [Element.replaced, if_neg]
  · rfl
  · simpa [Path.hasTag] using h

mutual

/-- What an element turns into by wrapping is one element, and unwrapping gives the element back
from it, wherever it stands. -/
theorem Element.unwrap_replaced {e : Element} (h : e.Every (·.tag ≠ tag)) (above : Path)
    (place : Option Nat) :
  ∃ e', e.replaced accepts (fun e => [.element (e.wrapper tag attributes)]) above place
      = [.element e']
    ∧ ∀ above' place', e'.replaced (Path.hasTag tag) (·.children) above' place' = [.element e]
  := by
  match e with
  | ⟨name, own, children⟩ =>
    let kept : Element := ⟨name, own, Node.replacedAll accepts
      (fun e => [.element (e.wrapper tag attributes)]) (⟨⟨name, own, children⟩, place⟩ :: above) 0
      children⟩
    have hkept : ∀ above' place', kept.replaced (Path.hasTag tag) (·.children) above' place'
        = [.element ⟨name, own, children⟩] := by
      intro above' place'
      have hne : kept.tag ≠ tag := h.root
      rw [Element.replaced_of_ne_tag _ _ hne,
        Node.unwrap_replacedAll fun child hchild => h.child hchild]
      rfl
    rw [Element.replaced]
    split
    · refine ⟨kept.wrapper tag attributes, rfl, ?_⟩
      intro above' place'
      have htag : (kept.wrapper tag attributes).tag = tag := rfl
      rw [Element.replaced_of_tag _ _ htag]
      apply (Node.replacedAll_singleton _ 0 (.element kept)).trans
      apply hkept
    · exact ⟨kept, rfl, hkept⟩

theorem Node.unwrap_replaced {n : Node} (h : ∀ e, n = .element e → e.Every (·.tag ≠ tag))
    (above above' : Path) (place place' : Nat) :
  Node.replacedAll (Path.hasTag tag) (·.children) above' place'
      (n.replaced accepts (fun e => [.element (e.wrapper tag attributes)]) above place)
    = [n]
  := by
  match n with
  | .element e =>
    obtain ⟨e', hwrap, hunwrap⟩ := Element.unwrap_replaced (h e rfl) above (some place)
    rw [Node.replaced, hwrap, Node.replacedAll_singleton, Node.replaced, hunwrap]
  | .text content => rfl

theorem Node.unwrap_replacedAll {ns : List Node}
    (h : ∀ e, .element e ∈ ns → e.Every (·.tag ≠ tag)) (above above' : Path) (place place' : Nat) :
  Node.replacedAll (Path.hasTag tag) (·.children) above' place'
      (Node.replacedAll accepts (fun e => [.element (e.wrapper tag attributes)]) above place ns)
    = ns
  := by
  match ns with
  | [] => rfl
  | n :: ns =>
    rw [Node.replacedAll, Node.replacedAll_append,
      Node.unwrap_replaced fun e he => h e (he ▸ List.mem_cons_self),
      Node.unwrap_replacedAll fun e he => h e (List.mem_cons_of_mem n he)]
    rfl

end

end

/-- Wrapping the elements of a selection gives the tree in which each of them, with the wrapped
elements inside it, is put into a new element.  If the tree does not have the tag of the new
elements, then replacing every element of that tag by its children gives the tree back. -/
theorem Selection.unwrap_wrap (s : Selection) {tag : String} (attributes : Attributes)
    (h : s.walk.root.Every (·.tag ≠ tag)) :
  ∃ wrapped, s.wrap tag attributes = .ok wrapped
    ∧ s.walk.root.replaced s.accepts (fun e => [.element (e.wrapper tag attributes)]) [] none
      = [.element wrapped]
    ∧ (ofElementTest (·.tag == tag) wrapped).change (·.children) = .ok s.walk.root
  := by
  obtain ⟨wrapped, hreplaced, hunwrap⟩ :=
    @Element.unwrap_replaced s.accepts tag attributes s.walk.root h [] none
  have hwrap := s.change_eq fun e => [.element (e.wrapper tag attributes)]
  rw [hreplaced] at hwrap
  have hchange := (ofElementTest (·.tag == tag) wrapped).change_eq (·.children)
  use wrapped, hwrap, hreplaced
  apply hchange.trans
  apply congrArg (fun nodes => finish wrapped (some nodes)) (hunwrap [] none)

/-- Three elements, two of them in the third, are wrapped and unwrapped. -/
theorem Selection.unwrap_wrap_nested :
  let inner : Element := ⟨"a", .empty, [.text "x"]⟩
  let outer : Element := ⟨"a", .empty, [.element inner, .element inner]⟩
  let attributes : Attributes := .ofList [("id", "y")]
  let boxed (e : Element) : Element := ⟨"b", attributes, [.element e]⟩
  let wrapped := boxed ⟨"a", .empty, [.element (boxed inner), .element (boxed inner)]⟩
  let s := ofTest (fun _ => true) outer
  outer.Every (·.tag ≠ "b")
    ∧ s.wrap "b" attributes = .ok wrapped
    ∧ (ofElementTest (·.tag == "b") wrapped).change (·.children) = .ok outer
  := by
  intro inner outer attributes boxed wrapped s
  have hinner : inner.Every (·.tag ≠ "b") := by
    refine .intro (by decide) ?_
    intro child hchild
    simp [inner] at hchild
  have houter : outer.Every (·.tag ≠ "b") := by
    refine .intro (by decide) ?_
    intro child hchild
    obtain rfl : child = inner := by simpa [outer] using hchild
    apply hinner
  obtain ⟨result, hwrap, hreplaced, hunwrap⟩ := unwrap_wrap s attributes houter
  obtain rfl : wrapped = result := Node.element.inj (List.singleton_inj.mp hreplaced)
  exact ⟨houter, hwrap, hunwrap⟩

end Hypertext
