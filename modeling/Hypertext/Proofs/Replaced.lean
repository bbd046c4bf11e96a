import Hypertext.Proofs.Rewrite
import Hypertext.Selection

/-!
# Rewriting by a function

`Effect.Yields x a` says that an effect has the value `a` whatever the state is, as one that keeps a
count does.  `Element.replaced` is what an element turns into when every element that passes a test
is replaced by the nodes that a function gives for it, the elements inside it first.  A rewriter
that yields what the function gives rewrites a tree to that, as `rewrite_of_yields` says, and
`Selection.change_eq` says it for the functions that change a selection.
-/

namespace Hypertext

variable {σ α β : Type}

/-! ### Effects with a value -/

/-- Whether an effect has a value whatever the state is. -/
def Effect.Yields (x : Effect σ α) (a : α) : Prop := ∀ memory, (x memory).1 = .ok a

namespace Effect

/-- Doing nothing yields its value. -/
theorem yields_pure (a : α) :
  (pure a : Effect σ α).Yields a
  := by
  intro memory
  rfl

/-- What comes second yields its value if what comes first yields what it needs. -/
theorem Yields.bind {x : Effect σ α} {f : α → Effect σ β} {a : α} {b : β} (hx : x.Yields a)
    (hf : (f a).Yields b) :
  (x >>= f).Yields b
  := by
  intro memory
  have hpair : x memory = (.ok a, (x memory).2) := by rw [← hx memory]
  rw [bind_ok hpair]
  apply hf

end Effect

/-! ### The recursion -/

mutual

/-- What an element turns into when every element that passes a test is replaced by what a function
gives for it, given the place of the element and the path above it. -/
def Element.replaced (accepts : Path → Bool) (g : Element → List Node) (above : Path)
    (place : Option Nat) : Element → List Node
  | ⟨tag, attributes, children⟩ =>
    let path := ⟨⟨tag, attributes, children⟩, place⟩ :: above
    let children := Node.replacedAll accepts g path 0 children
    if accepts path then g ⟨tag, attributes, children⟩ else [.element ⟨tag, attributes, children⟩]

/-- What a node turns into, given its place and the path above it. -/
def Node.replaced (accepts : Path → Bool) (g : Element → List Node) (above : Path) (place : Nat) :
    Node → List Node
  | .element e => e.replaced accepts g above (some place)
  | .text content => [.text content]

/-- What nodes turn into, given the place of the first and the path above them. -/
def Node.replacedAll (accepts : Path → Bool) (g : Element → List Node) (above : Path)
    (place : Nat) : List Node → List Node
  | [] => []
  | n :: ns => n.replaced accepts g above place ++ Node.replacedAll accepts g above (place + 1) ns

end

section

variable {accepts : Path → Bool} {f : Rewriter σ} {g : Element → List Node}

/-- Replacing in a single node is replacing in it. -/
theorem Node.replacedAll_singleton (above : Path) (place : Nat) (n : Node) :
  Node.replacedAll accepts g above place [n] = n.replaced accepts g above place
  := by
  rw [Node.replacedAll, Node.replacedAll, List.append_nil]

/-- Replacing in nodes is replacing in a first part and in the rest, which keeps its places. -/
theorem Node.replacedAll_append (above : Path) (place : Nat) (ns ms : List Node) :
  Node.replacedAll accepts g above place (ns ++ ms)
    = Node.replacedAll accepts g above place ns
      ++ Node.replacedAll accepts g above (place + ns.length) ms
  := by
  induction ns generalizing place with
  | nil => rfl
  | cons n ns ih =>
    rw [List.cons_append, Node.replacedAll, Node.replacedAll, ih, List.append_assoc,
      List.length_cons, Nat.add_assoc, Nat.add_comm 1]

mutual

/-- A rewriter that yields what a function gives turns an element into what the function makes of
it. -/
theorem Element.yields_turned (hf : ∀ e, (f e).Yields (g e)) (above : Path) (place : Option Nat)
    (e : Element) :
  (e.turned accepts f above place).Yields (e.replaced accepts g above place)
  := by
  match e with
  | ⟨tag, attributes, children⟩ =>
    rw [Element.turned, Element.replaced]
    apply (Node.yields_turnedAll hf _ _ children).bind
    split
    · apply hf
    · apply Effect.yields_pure

/-- A rewriter whose answers do not depend on the memory yields what replacing gives. -/
theorem Node.yields_turned (hf : ∀ e, (f e).Yields (g e)) (above : Path) (place : Nat) (n : Node) :
  (n.turned accepts f above place).Yields (n.replaced accepts g above place)
  := by
  match n with
  | .element e => apply Element.yields_turned hf _ _ e
  | .text content => apply Effect.yields_pure

theorem Node.yields_turnedAll (hf : ∀ e, (f e).Yields (g e)) (above : Path) (place : Nat)
    (ns : List Node) :
  (Node.turnedAll accepts f above place ns).Yields (Node.replacedAll accepts g above place ns)
  := by
  match ns with
  | [] => apply Effect.yields_pure
  | n :: ns =>
    rw [Node.turnedAll, Node.replacedAll]
    apply (Node.yields_turned hf _ _ n).bind
    apply (Node.yields_turnedAll hf _ _ ns).bind
    apply Effect.yields_pure

end

/-- A rewriter that yields what a function gives rewrites a tree to what the function makes of it,
if that is a single element. -/
theorem Element.rewrite_of_yields (hf : ∀ e, (f e).Yields (g e)) (root : Element) (memory : σ) :
  (root.rewrite accepts f memory).1 = finish root (some (root.replaced accepts g [] none))
  := by
  rw [Element.rewrite_apply, Element.yields_turned hf [] none root memory]
  rfl

end

/-- Changing a selection is replacing what is selected, and the root has to stay an element. -/
theorem Selection.change_eq (g : Element → List Node) (s : Selection) :
  s.change g = finish s.walk.root (some (s.walk.root.replaced s.accepts g [] none))
  := by
  apply Element.rewrite_of_yields
  intro e
  apply Effect.yields_pure

end Hypertext
