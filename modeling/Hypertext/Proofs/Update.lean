import Hypertext.Proofs.Outline
import Hypertext.Proofs.Replaced
import Hypertext.Tree.Attribute

/-!
# Updating attributes

`Element.updated` is a tree with a function applied to the attributes of the elements whose paths in
it pass a test.  Rewriting by a function that gives an element with other attributes leaves that,
and `Selection.outline_of_update` says so node by node: the new tree has the nodes of the old one in
the same places, and only the attributes of the selected elements are others.
-/

namespace Hypertext

variable {σ : Type}

/-- A visited node with the attributes that a function gives for it if it is an element whose path
passes a test. -/
def Visit.updated (accepts : Path → Bool) (attributes : Element → Attributes) (v : Visit) : Visit :=
  match v.node with
  | .element e =>
    let own := if accepts v.path then attributes e else e.attributes
    { v with node := .element (e.setAttributes own) }
  | .text _ => v

/-- An update that gives each element its own attributes changes no visited node. -/
theorem Visit.updated_own (accepts : Path → Bool) (v : Visit) :
  v.updated accepts (·.attributes) = v
  := by
  obtain ⟨n, place, above⟩ := v
  cases n with
  | element e =>
    rw [Visit.updated]
    dsimp only
    rw [ite_self, Element.setAttributes, e.eta]
  | text content => rfl

/-! ### Updated trees -/

mutual

/-- The element with a function applied to the attributes of the elements in it whose paths pass a
test, given its place and the path above it. -/
def Element.updated (accepts : Path → Bool) (update : Attributes → Attributes) (above : Path)
    (place : Option Nat) : Element → Element
  | ⟨tag, attributes, children⟩ =>
    let path := ⟨⟨tag, attributes, children⟩, place⟩ :: above
    ⟨tag, if accepts path then update attributes else attributes,
      Node.updatedAll accepts update path 0 children⟩

/-- The node with a function applied to the attributes of elements, given its place and the path
above it. -/
def Node.updated (accepts : Path → Bool) (update : Attributes → Attributes) (above : Path)
    (place : Nat) : Node → Node
  | .element e => .element (e.updated accepts update above (some place))
  | .text content => .text content

/-- The nodes with a function applied to the attributes of elements, given the place of the first
and the path above them. -/
def Node.updatedAll (accepts : Path → Bool) (update : Attributes → Attributes) (above : Path)
    (place : Nat) : List Node → List Node
  | [] => []
  | n :: ns => n.updated accepts update above place
      :: Node.updatedAll accepts update above (place + 1) ns

end

section

variable {accepts : Path → Bool} {update : Attributes → Attributes}

mutual

theorem Element.replaced_eq_updated (above : Path) (place : Option Nat) (e : Element) :
  e.replaced accepts (fun e => [.element (e.setAttributes (update e.attributes))]) above place
    = [.element (e.updated accepts update above place)]
  := by
  match e with
  | ⟨tag, attributes, children⟩ =>
    rw [Element.replaced, Element.updated, Node.replacedAll_eq_updatedAll _ _ children]
    split
    · rfl
    · rfl

theorem Node.replaced_eq_updated (above : Path) (place : Nat) (n : Node) :
  n.replaced accepts (fun e => [.element (e.setAttributes (update e.attributes))]) above place
    = [n.updated accepts update above place]
  := by
  match n with
  | .element e => apply Element.replaced_eq_updated _ _ e
  | .text content => rfl

theorem Node.replacedAll_eq_updatedAll (above : Path) (place : Nat) (ns : List Node) :
  Node.replacedAll accepts (fun e => [.element (e.setAttributes (update e.attributes))]) above place
      ns
    = Node.updatedAll accepts update above place ns
  := by
  match ns with
  | [] => rfl
  | n :: ns =>
    rw [Node.replacedAll, Node.updatedAll, Node.replaced_eq_updated _ _ n,
      Node.replacedAll_eq_updatedAll _ _ ns]
    rfl

end

mutual

/-- The updated element has the nodes of the element in the same places, each with the update of its
own attributes if its path in the element as it was passes the test. -/
theorem Element.entries_updated {above above' : Path}
    (habove : above'.map (·.place) = above.map (·.place)) (place : Option Nat) (e : Element) :
  ((e.updated accepts update above place).visitsBelow above' place).map Visit.entry
    = (e.visitsBelow above place).map fun v =>
      (v.updated accepts fun e => update e.attributes).entry
  := by
  match e with
  | ⟨tag, attributes, children⟩ =>
    rw [Element.updated, Element.visitsBelow, Element.visitsBelow, List.map_cons, List.map_cons]
    congr 1
    · simp only [Visit.entry, Visit.places, habove]
      rfl
    · apply Node.entries_updatedAll
      simp only [List.map_cons, habove]

theorem Node.entries_updated {above above' : Path}
    (habove : above'.map (·.place) = above.map (·.place)) (place : Nat) (n : Node) :
  ((n.updated accepts update above place).visitsBelow above' place).map Visit.entry
    = (n.visitsBelow above place).map fun v =>
      (v.updated accepts fun e => update e.attributes).entry
  := by
  match n with
  | .element e => apply Element.entries_updated habove (some place) e
  | .text content =>
    change [(some place :: above'.map (·.place), Node.text content)] = _
    rw [habove]
    rfl

theorem Node.entries_updatedAll {above above' : Path}
    (habove : above'.map (·.place) = above.map (·.place)) (place : Nat) (ns : List Node) :
  (Node.visitsFrom above' place (Node.updatedAll accepts update above place ns)).map Visit.entry
    = (Node.visitsFrom above place ns).map fun v =>
      (v.updated accepts fun e => update e.attributes).entry
  := by
  match ns with
  | [] => rfl
  | n :: ns =>
    rw [Node.updatedAll, Node.visitsFrom, Node.visitsFrom, List.map_append, List.map_append,
      Node.entries_updated habove _ n, Node.entries_updatedAll habove _ ns]

end

/-- The outline of an updated tree is that of the tree with the attributes updated where selected.
-/
theorem Element.outline_updated (root : Element) :
  (root.updated accepts update [] none).outline
    = root.visits.map fun v => (v.updated accepts fun e => update e.attributes).entry
  := Element.entries_updated rfl none root

/-- A rewriter that yields an element with its attributes updated rewrites a tree to the updated
tree. -/
theorem Element.rewrite_of_yields_update {f : Rewriter σ}
    (hf : ∀ e, (f e).Yields [.element (e.setAttributes (update e.attributes))]) (root : Element)
    (memory : σ) :
  (root.rewrite accepts f memory).1 = .ok (root.updated accepts update [] none)
  := by
  rw [Element.rewrite_of_yields hf, Element.replaced_eq_updated]
  rfl

end

/-! ### Classes -/

/-- Attributes with words added to their class list. -/
def Attributes.addClass (names : String) (a : Attributes) : Attributes :=
  ((⟨"", a, []⟩ : Element).addClass names).attributes

/-- Attributes with a word taken out of their class list. -/
def Attributes.removeClass (name : String) (a : Attributes) : Attributes :=
  ((⟨"", a, []⟩ : Element).removeClass name).attributes

/-- Adding a class changes the attributes only. -/
theorem Element.addClass_eq (names : String) (e : Element) :
  e.addClass names = e.setAttributes (e.attributes.addClass names)
  := by
  have hlist : (⟨"", e.attributes, []⟩ : Element).classList = e.classList := rfl
  have hclass : (⟨"", e.attributes, []⟩ : Element).hasAttribute "class" = e.hasAttribute "class" :=
    rfl
  unfold Attributes.addClass addClass
  rw [hlist, hclass]
  dsimp only
  split
  · exact e.eta.symm
  · rfl

/-- Removing a class changes the attributes only. -/
theorem Element.removeClass_eq (name : String) (e : Element) :
  e.removeClass name = e.setAttributes (e.attributes.removeClass name)
  := by
  have hlist : (⟨"", e.attributes, []⟩ : Element).classList = e.classList := rfl
  have hclass : (⟨"", e.attributes, []⟩ : Element).hasAttribute "class" = e.hasAttribute "class" :=
    rfl
  unfold Attributes.removeClass removeClass
  rw [hlist, hclass]
  dsimp only
  split
  · split
    · rfl
    · rfl
  · exact e.eta.symm

/-! ### Selections -/

namespace Selection

/-- The outline of the tree with the attributes that a function gives for the selected elements. -/
def updated (attributes : Element → Attributes) (s : Selection) :
    List (List (Option Nat) × Node) :=
  s.walk.root.visits.map fun v => (v.updated s.accepts attributes).entry

/-- Giving every element its own attributes changes nothing of the outline. -/
theorem updated_own (s : Selection) :
  s.updated (·.attributes) = s.walk.root.outline
  := by
  apply List.map_congr_left
  intro v _
  apply congrArg Visit.entry (v.updated_own s.accepts)

/-- A rewriter that updates attributes does so at the elements selected, and nowhere else. -/
theorem outline_of_rewrite {f : Rewriter σ} {update : Attributes → Attributes}
    (hf : ∀ e, (f e).Yields [.element (e.setAttributes (update e.attributes))]) (memory : σ)
    (s : Selection) :
  ∃ result, (s.rewrite f memory).1 = .ok result
    ∧ result.outline = s.updated fun e => update e.attributes
  := by
  use s.walk.root.updated s.accepts update [] none
  constructor
  · apply Element.rewrite_of_yields_update hf
  · apply Element.outline_updated

/-- A change of attributes is made at the elements selected, and nowhere else. -/
theorem outline_of_change {g : Element → Element} (update : Attributes → Attributes)
    (hg : ∀ e, g e = e.setAttributes (update e.attributes)) (s : Selection) :
  ∃ result, s.change (fun e => [.element (g e)]) = .ok result
    ∧ result.outline = s.updated fun e => (g e).attributes
  := by
  obtain rfl : g = fun e => e.setAttributes (update e.attributes) := funext hg
  apply outline_of_rewrite
  intro e
  apply Effect.yields_pure

/-- A rewriter that yields every element as it is leaves the tree as it is. -/
theorem rewrite_of_yields_self {f : Rewriter σ} (hf : ∀ e, (f e).Yields [.element e]) (memory : σ)
    (s : Selection) :
  (s.rewrite f memory).1 = .ok s.walk.root
  := by
  have hown : ∀ e, (f e).Yields [.element (e.setAttributes (id e.attributes))] := by
    intro e
    rw [id, Element.setAttributes, e.eta]
    apply hf
  obtain ⟨result, hresult, houtline⟩ := s.outline_of_rewrite hown memory
  rw [hresult]
  congr 1
  apply Element.eq_of_outline
  apply houtline.trans s.updated_own

/-- Giving the selected elements other attributes, which are a function of those that they have,
succeeds and changes nothing else: the new tree has the nodes of the old one in the same places,
with the same tags and texts, and an element has the function of its attributes if its path in the
old tree passes the test, and else its own.  So do setting an attribute, adding to the class list
and taking from it, and giving every element back leaves the tree as it is. -/
theorem outline_of_update (s : Selection) :
  (∀ (σ : Type) (f : Rewriter σ) (update : Attributes → Attributes) (memory : σ),
      (∀ e, (f e).Yields [.element (e.setAttributes (update e.attributes))]) →
      ∃ result, (s.rewrite f memory).1 = .ok result
        ∧ result.outline = s.updated fun e => update e.attributes)
    ∧ (∀ name value, ∃ result, s.setAttribute name value = .ok result
      ∧ result.outline = s.updated fun e => e.attributes.insert name value)
    ∧ (∀ names, ∃ result, s.addClass names = .ok result
      ∧ result.outline = s.updated fun e => (e.addClass names).attributes)
    ∧ (∀ name, ∃ result, s.removeClass name = .ok result
      ∧ result.outline = s.updated fun e => (e.removeClass name).attributes)
    ∧ ∀ (σ : Type) (f : Rewriter σ) (memory : σ), (∀ e, (f e).Yields [.element e]) →
      (s.rewrite f memory).1 = .ok s.walk.root
  := by
  refine ⟨?_, ?_, ?_, ?_, ?_⟩
  · intro σ f update memory hf
    apply s.outline_of_rewrite hf
  · intro name value
    apply s.outline_of_change (·.insert name value)
    intro e
    rfl
  · intro names
    apply s.outline_of_change _ (Element.addClass_eq names)
  · intro name
    apply s.outline_of_change _ (Element.removeClass_eq name)
  · intro σ f memory hf
    apply s.rewrite_of_yields_self hf

/-- Elements are named, and kept, by rewriters that count their calls. -/
theorem outline_of_update_counting :
  let s := ofElementTest (·.tag == "b") ⟨"a", .empty, [.element ⟨"b", .empty, []⟩, .text "x"]⟩
  let named (a : Attributes) : Attributes := a.insert "id" "y"
  let naming : Rewriter Nat :=
    fun e count => (.ok [.element (e.setAttributes (named e.attributes))], count + 1)
  let keeping : Rewriter Nat := fun e count => (.ok [.element e], count + 1)
  (∀ e, (naming e).Yields [.element (e.setAttributes (named e.attributes))])
    ∧ (∃ result, (s.rewrite naming 0).1 = .ok result
      ∧ result.outline = [([none], .element ⟨"a", .empty, []⟩),
        ([some 0, none], .element ⟨"b", named .empty, []⟩), ([some 1, none], .text "x")])
    ∧ (∀ e, (keeping e).Yields [.element e])
    ∧ (s.rewrite keeping 0).1 = .ok s.walk.root
  := by
  intro s named naming keeping
  have hnaming : ∀ e, (naming e).Yields [.element (e.setAttributes (named e.attributes))] := by
    intro e count
    rfl
  have hkeeping : ∀ e, (keeping e).Yields [.element e] := by
    intro e count
    rfl
  obtain ⟨hupdate, -, -, -, hidentity⟩ := outline_of_update s
  obtain ⟨result, hresult, houtline⟩ := hupdate Nat naming named 0 hnaming
  refine ⟨hnaming, ⟨result, hresult, houtline.trans ?_⟩, hkeeping, hidentity Nat keeping 0 hkeeping⟩
  rfl

end Selection

end Hypertext
