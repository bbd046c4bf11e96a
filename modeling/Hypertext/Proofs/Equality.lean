import Hypertext.Proofs.Walk.Calls
import Hypertext.Tree.Attribute
import Hypertext.Tree.Equality
import Mathlib.Data.List.Forall2
import Mathlib.Data.List.Perm.Subperm

/-!
# Equal trees

Attribute maps are equal exactly if every name has the same value in both, as `Attributes.beq_iff`
says, and so what is read from them by name is the same.  Equal trees have equal nodes in the same
places, which is what `Visit.Same` says of two nodes and `Element.same_visits` of the nodes of two
trees in document order.
-/

namespace Hypertext

/-! ### Attributes -/

namespace Attributes

/-- The pairs of a map are its names, each with its value. -/
theorem mem_pairs_iff (a : Attributes) (name value : String) :
  (name, value) ∈ a.pairs ↔ a.get? name = some value
  := mem_iff_lookup a.nodup name value

/-- No pair of a map is there twice. -/
theorem nodup_pairs (a : Attributes) :
  a.pairs.Nodup
  := .of_map _ a.nodup

/-- Equal maps hold the same pairs, in any order: each pair of the first is in the second, which has
no more. -/
theorem beq_iff_perm (a b : Attributes) :
  a == b ↔ a.pairs.Perm b.pairs
  := by
  have hbeq : a == b ↔ a.size = b.size ∧ ∀ p ∈ a.pairs, b.get? p.1 = some p.2 := by
    change (a.size == b.size && a.pairs.all fun p => b.get? p.1 == some p.2) = true ↔ _
    simp
  rw [hbeq]
  constructor
  · rintro ⟨hsize, hpairs⟩
    have hsubset : a.pairs ⊆ b.pairs := by
      intro p hp
      apply (b.mem_pairs_iff p.1 p.2).mpr (hpairs p hp)
    apply (List.subperm_of_subset a.nodup_pairs hsubset).perm_of_length_le
    apply Nat.le_of_eq hsize.symm
  · intro hperm
    refine ⟨hperm.length_eq, ?_⟩
    intro p hp
    apply (b.mem_pairs_iff p.1 p.2).mp (hperm.mem_iff.mp hp)

/-- Equal maps give every name the same value. -/
theorem beq_iff (a b : Attributes) :
  a == b ↔ ∀ name, a.get? name = b.get? name
  := by
  rw [beq_iff_perm, List.perm_ext_iff_of_nodup a.nodup_pairs b.nodup_pairs]
  constructor
  · intro hpairs name
    apply Option.ext
    intro value
    rw [← mem_pairs_iff, ← mem_pairs_iff, hpairs]
  · rintro hget ⟨name, value⟩
    rw [mem_pairs_iff, mem_pairs_iff, hget]

instance : EquivBEq Attributes where
  rfl := by
    intro a
    exact (beq_iff a a).mpr fun _ => rfl
  symm := by
    intro a b h
    exact (beq_iff b a).mpr fun name => ((beq_iff a b).mp h name).symm
  trans := by
    intro a b c hab hbc
    exact (beq_iff a c).mpr fun name => ((beq_iff a b).mp hab name).trans ((beq_iff b c).mp hbc name)

end Attributes

/-! ### Elements -/

/-- Lists of nodes are equal if they are equal place by place. -/
theorem Node.beqs_iff (ns ns' : List Node) :
  Node.beqs ns ns' ↔ List.Forall₂ (fun n n' => n == n') ns ns'
  := by
  induction ns generalizing ns' with
  | nil =>
    cases ns' with
    | nil => simp [Node.beqs]
    | cons n' ns' => simp [Node.beqs]
  | cons n ns ih =>
    cases ns' with
    | nil => simp [Node.beqs]
    | cons n' ns' =>
      rw [Node.beqs, Bool.and_eq_true, ih, List.forall₂_cons]
      rfl

/-- Equal nodes are equal elements or the same text. -/
theorem Node.cases_of_beq {n n' : Node} (h : n == n') :
  (∃ e e', n = .element e ∧ n' = .element e' ∧ e == e') ∨ ∃ content, n = .text content ∧ n' = n
  := by
  match n, n' with
  | .element e, .element e' => exact .inl ⟨e, e', rfl, rfl, h⟩
  | .text content, .text content' =>
    obtain rfl : content = content' := eq_of_beq h
    exact .inr ⟨content, rfl, rfl⟩
  | .element e, .text content => cases h
  | .text content, .element e => cases h

/-- Elements are equal if their tags, their attributes and, place by place, their children are. -/
theorem Element.beq_iff (e e' : Element) :
  e == e' ↔ e.tag = e'.tag ∧ e.attributes == e'.attributes
    ∧ List.Forall₂ (fun n n' => n == n') e.children e'.children
  := by
  obtain ⟨tag, attributes, children⟩ := e
  obtain ⟨tag', attributes', children'⟩ := e'
  change (tag == tag' && attributes == attributes' && Node.beqs children children') = true ↔ _
  rw [Bool.and_eq_true, Bool.and_eq_true, Node.beqs_iff, beq_iff_eq, and_assoc]

mutual

theorem Element.beq_self (e : Element) :
  e == e
  := by
  match e with
  | ⟨tag, attributes, children⟩ =>
    exact (Element.beq_iff _ _).mpr ⟨rfl, BEq.rfl, Node.forall₂_beq_self children⟩

theorem Node.beq_self (n : Node) :
  n == n
  := by
  match n with
  | .element e => apply Element.beq_self e
  | .text content => apply beq_self_eq_true content

theorem Node.forall₂_beq_self (ns : List Node) :
  List.Forall₂ (fun n n' => n == n') ns ns
  := by
  match ns with
  | [] => exact .nil
  | n :: ns => exact .cons (Node.beq_self n) (Node.forall₂_beq_self ns)

end

mutual

/-- Elements that are equal to the same element are equal. -/
theorem Element.beq_of_beq {e e₁ e₂ : Element} (h₁ : e == e₁) (h₂ : e == e₂) :
  e₁ == e₂
  := by
  match e, e₁, e₂ with
  | ⟨tag, attributes, children⟩, ⟨tag₁, attributes₁, children₁⟩, ⟨tag₂, attributes₂, children₂⟩ =>
    obtain ⟨htag₁, hattributes₁, hchildren₁⟩ := (Element.beq_iff _ _).mp h₁
    obtain ⟨htag₂, hattributes₂, hchildren₂⟩ := (Element.beq_iff _ _).mp h₂
    apply (Element.beq_iff _ _).mpr
    exact ⟨htag₁.symm.trans htag₂, BEq.trans (BEq.symm hattributes₁) hattributes₂,
      Node.forall₂_beq_of_beq hchildren₁ hchildren₂⟩

/-- Nodes that are equal to the same node are equal. -/
theorem Node.beq_of_beq {n n₁ n₂ : Node} (h₁ : n == n₁) (h₂ : n == n₂) :
  n₁ == n₂
  := by
  match n, n₁, n₂ with
  | .element e, .element e₁, .element e₂ => apply Element.beq_of_beq (e := e) h₁ h₂
  | .text content, .text content₁, .text content₂ =>
    obtain rfl : content = content₁ := eq_of_beq h₁
    exact h₂
  | .element e, .text content, _ => cases h₁
  | .element e, _, .text content => cases h₂
  | .text content, .element e, _ => cases h₁
  | .text content, _, .element e => cases h₂

theorem Node.forall₂_beq_of_beq {ns ns₁ ns₂ : List Node}
    (h₁ : List.Forall₂ (fun n n' => n == n') ns ns₁)
    (h₂ : List.Forall₂ (fun n n' => n == n') ns ns₂) :
  List.Forall₂ (fun n n' => n == n') ns₁ ns₂
  := by
  match ns, ns₁, ns₂ with
  | [], [], [] => exact .nil
  | n :: ns, n₁ :: ns₁, n₂ :: ns₂ =>
    obtain ⟨hn₁, hns₁⟩ := List.forall₂_cons.mp h₁
    obtain ⟨hn₂, hns₂⟩ := List.forall₂_cons.mp h₂
    exact .cons (Node.beq_of_beq hn₁ hn₂) (Node.forall₂_beq_of_beq hns₁ hns₂)

end

instance : EquivBEq Element where
  rfl := by
    intro e
    exact e.beq_self
  symm := by
    intro e e' h
    exact Element.beq_of_beq h e.beq_self
  trans := by
    intro e₁ e e₂ h₁ h₂
    exact Element.beq_of_beq (Element.beq_of_beq h₁ e₁.beq_self) h₂

instance : EquivBEq Node where
  rfl := by
    intro n
    exact n.beq_self
  symm := by
    intro n n' h
    exact Node.beq_of_beq h n.beq_self
  trans := by
    intro n₁ n n₂ h₁ h₂
    exact Node.beq_of_beq (Node.beq_of_beq h₁ n₁.beq_self) h₂

section

variable {e e' : Element}

/-- Equal elements have the same values of their attributes. -/
theorem Element.attribute?_of_beq (h : e == e') :
  e.attribute? = e'.attribute?
  := by
  obtain ⟨-, hattributes, -⟩ := (Element.beq_iff e e').mp h
  funext name
  apply (Attributes.beq_iff _ _).mp hattributes

/-- Equal elements have the same class list. -/
theorem Element.classList_of_beq (h : e == e') :
  e.classList = e'.classList
  := by
  rw [Element.classList, Element.classList, Element.attribute?_of_beq h]

/-- Equal elements have the same number of children. -/
theorem Element.length_children_of_beq (h : e == e') :
  e.children.length = e'.children.length
  := by
  obtain ⟨-, -, hchildren⟩ := (Element.beq_iff e e').mp h
  apply hchildren.length_eq

/-- Of equal elements both are empty, or neither is. -/
theorem Element.isEmpty_of_beq (h : e == e') :
  e.isEmpty = e'.isEmpty
  := by
  have hlength := Element.length_children_of_beq h
  rw [Bool.eq_iff_iff, Element.isEmpty, Element.isEmpty, List.isEmpty_iff_length_eq_zero,
    List.isEmpty_iff_length_eq_zero, hlength]

end

/-! ### Nodes in document order -/

/-- What is the same for related members is the same list for related lists. -/
theorem map_eq_map_of_forall₂ {α β γ : Type} {R : α → β → Prop} {f : α → γ} {g : β → γ}
    {as : List α} {bs : List β} (h : List.Forall₂ R as bs) (hR : ∀ a b, R a b → f a = g b) :
  as.map f = bs.map g
  := by
  have hmap : List.Forall₂ Eq (as.map f) (bs.map g) := List.rel_map hR h
  rwa [List.forall₂_eq_eq_eq] at hmap

/-- Whether two steps have equal elements in the same place. -/
structure Step.Same (step step' : Step) : Prop where
  element : step.element == step'.element
  place : step.place = step'.place

/-- Whether two visited nodes are equal and in the same place of equal elements. -/
structure Visit.Same (v v' : Visit) : Prop where
  node : v.node == v'.node
  place : v.place = v'.place
  above : List.Forall₂ Step.Same v.above v'.above

/-- Nodes that are visited in equal trees are equal elements or texts both. -/
theorem Visit.Same.element? {v v' : Visit} (h : v.Same v') :
  Option.Rel (fun e e' => e == e') v.node.element? v'.node.element?
  := by
  obtain ⟨e, e', hv, hv', he⟩ | ⟨content, hv, hv'⟩ := Node.cases_of_beq h.node
  · rw [hv, hv']
    exact .some he
  · rw [hv', hv]
    exact .none

/-- Equal nodes in the same place of equal elements are in the same place of the tree. -/
theorem Visit.Same.places {v v' : Visit} (h : v.Same v') :
  v.places = v'.places
  := by
  have habove := map_eq_map_of_forall₂ h.above fun _ _ hstep => hstep.place
  rw [Visit.places, Visit.places, h.place, habove]

mutual

/-- Equal elements have equal nodes in the same places. -/
theorem Element.same_visitsBelow {above above' : Path}
    (habove : List.Forall₂ Step.Same above above') (place : Option Nat) {e e' : Element}
    (h : e == e') :
  List.Forall₂ Visit.Same (e.visitsBelow above place) (e'.visitsBelow above' place)
  := by
  match e, e' with
  | ⟨tag, attributes, children⟩, ⟨tag', attributes', children'⟩ =>
    obtain ⟨-, -, hchildren⟩ := (Element.beq_iff _ _).mp h
    have hstep : Step.Same ⟨⟨tag, attributes, children⟩, place⟩
        ⟨⟨tag', attributes', children'⟩, place⟩ := ⟨h, rfl⟩
    rw [Element.visitsBelow, Element.visitsBelow]
    apply List.Forall₂.cons ⟨h, rfl, habove⟩
    apply Node.same_visitsFrom (.cons hstep habove) 0 hchildren

theorem Node.same_visitsBelow {above above' : Path} (habove : List.Forall₂ Step.Same above above')
    (place : Nat) {n n' : Node} (h : n == n') :
  List.Forall₂ Visit.Same (n.visitsBelow above place) (n'.visitsBelow above' place)
  := by
  match n, n' with
  | .element e, .element e' => apply Element.same_visitsBelow habove (some place) h
  | .text content, .text content' => exact .cons ⟨h, rfl, habove⟩ .nil
  | .element e, .text content => cases h
  | .text content, .element e => cases h

theorem Node.same_visitsFrom {above above' : Path} (habove : List.Forall₂ Step.Same above above')
    (place : Nat) {ns ns' : List Node} (h : List.Forall₂ (fun n n' => n == n') ns ns') :
  List.Forall₂ Visit.Same (Node.visitsFrom above place ns) (Node.visitsFrom above' place ns')
  := by
  match ns, ns' with
  | [], [] => exact .nil
  | n :: ns, n' :: ns' =>
    obtain ⟨hn, hns⟩ := List.forall₂_cons.mp h
    rw [Node.visitsFrom, Node.visitsFrom]
    apply List.rel_append
    · apply Node.same_visitsBelow habove place hn
    · apply Node.same_visitsFrom habove (place + 1) hns

end

/-- The nodes of equal trees, in document order, are equal and in the same places. -/
theorem Element.same_visits {e e' : Element} (h : e == e') :
  List.Forall₂ Visit.Same e.visits e'.visits
  := Element.same_visitsBelow .nil none h

end Hypertext
