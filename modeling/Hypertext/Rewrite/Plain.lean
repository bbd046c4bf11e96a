import Hypertext.Effect
import Hypertext.Path

/-!
# Plain rewriting

`Element.rewritePlainly` rewrites a tree by recursion: the children first, from left to right, and
then the element itself, with what the children turned into in place, if the path of the element
in the tree as it was passes a test.  It says what rewriting on a walk comes to.
-/

namespace Hypertext

variable {σ : Type}

mutual

/-- What an element turns into, given the path above it and its place. -/
def Element.turned (accepts : Path → Bool) (f : Element → Effect σ (List Node)) (above : Path)
    (place : Option Nat) : Element → Effect σ (List Node)
  | ⟨tag, attributes, children⟩ => do
    let path := ⟨⟨tag, attributes, children⟩, place⟩ :: above
    let children ← Node.turnedAll accepts f path 0 children
    if accepts path then f ⟨tag, attributes, children⟩
    else return [.element ⟨tag, attributes, children⟩]

/-- What a node turns into, given the path above it and its place. -/
def Node.turned (accepts : Path → Bool) (f : Element → Effect σ (List Node)) (above : Path)
    (place : Nat) : Node → Effect σ (List Node)
  | .element e => e.turned accepts f above (some place)
  | .text content => return [.text content]

/-- What children turn into, given the path above them and the place of the first. -/
def Node.turnedAll (accepts : Path → Bool) (f : Element → Effect σ (List Node)) (above : Path)
    (place : Nat) : List Node → Effect σ (List Node)
  | [] => return []
  | n :: ns => do
    let nodes ← n.turned accepts f above place
    let more ← Node.turnedAll accepts f above (place + 1) ns
    return nodes ++ more

end

/-- The tree with every element whose path passes a test rewritten, the elements inside it
before it; the root has to stay a single element. -/
def Element.rewritePlainly (accepts : Path → Bool) (f : Element → Effect σ (List Node))
    (root : Element) : Effect σ Element := do
  match ← root.turned accepts f [] none with
  | [.element e] => return e
  | nodes => .fail (.format (.rootNotOneElement nodes))

end Hypertext
