import Hypertext.Proofs.Replaced
import Hypertext.Proofs.Selection
import Hypertext.Proofs.Selector.Plain

/-!
# Removing elements

`Element.pruned` is a tree without the elements below its root whose paths pass a test, and without
what is in them.  Removing a selection from a tree leaves that, as `remove_ofTest` says, or it
fails, because the root is selected.

`Element.map_bare_visits_pruned` says which nodes are left: those that are not within an element
that passes the test, in document order.  For a selector without pseudo-classes none of these is
selected in the new tree either, so that there is nothing to remove from it.
-/

namespace Hypertext

/-! ### Pruned trees -/

mutual

/-- The element without the elements below it whose paths pass a test, given its place and the
path above it. -/
def Element.pruned (accepts : Path → Bool) (above : Path) (place : Option Nat) :
    Element → Element
  | ⟨tag, attributes, children⟩ =>
    let path := ⟨⟨tag, attributes, children⟩, place⟩ :: above
    ⟨tag, attributes, Node.prunedAll accepts path 0 children⟩

/-- What is left of a node, given its place and the path above it. -/
def Node.pruned (accepts : Path → Bool) (above : Path) (place : Nat) : Node → List Node
  | .element e =>
    if accepts (⟨e, some place⟩ :: above) then []
    else [.element (e.pruned accepts above (some place))]
  | .text content => [.text content]

/-- What is left of nodes, given the place of the first and the path above them. -/
def Node.prunedAll (accepts : Path → Bool) (above : Path) (place : Nat) : List Node → List Node
  | [] => []
  | n :: ns => n.pruned accepts above place ++ Node.prunedAll accepts above (place + 1) ns

end

section

variable {accepts : Path → Bool}

mutual

/-- Replacing every element that passes a test by nothing leaves the pruned tree. -/
theorem Element.replaced_eq_pruned (above : Path) (place : Option Nat) (e : Element) :
  e.replaced accepts (fun _ => []) above place
    = if accepts (⟨e, place⟩ :: above) then [] else [.element (e.pruned accepts above place)]
  := by
  match e with
  | ⟨tag, attributes, children⟩ =>
    rw [Element.replaced, Element.pruned, Node.replacedAll_eq_prunedAll _ _ children]

theorem Node.replaced_eq_pruned (above : Path) (place : Nat) (n : Node) :
  n.replaced accepts (fun _ => []) above place = n.pruned accepts above place
  := by
  match n with
  | .element e => rw [Node.replaced, Element.replaced_eq_pruned _ _ e, Node.pruned]
  | .text content => rfl

theorem Node.replacedAll_eq_prunedAll (above : Path) (place : Nat) (ns : List Node) :
  Node.replacedAll accepts (fun _ => []) above place ns = Node.prunedAll accepts above place ns
  := by
  match ns with
  | [] => rfl
  | n :: ns =>
    rw [Node.replacedAll, Node.replaced_eq_pruned _ _ n, Node.replacedAll_eq_prunedAll _ _ ns,
      Node.prunedAll]

end

end

/-- Removing leaves the pruned tree, or fails if that would remove the root. -/
theorem Selection.remove_ofTest (accepts : Path → Bool) (root : Element) :
  (ofTest accepts root).remove
    = if accepts (.single root) then .error (.format (.rootNotOneElement []))
      else .ok (root.pruned accepts [] none)
  := by
  have hchange := (ofTest accepts root).change_eq fun _ => []
  rw [Element.replaced_eq_pruned] at hchange
  apply hchange.trans
  change finish root (some (if accepts (.single root) then _ else _)) = _
  split
  · rfl
  · rfl

/-! ### What is left -/

/-- Whether the first element of a path is within one that passes a test, or passes it itself. -/
def Path.within (accepts : Path → Bool) : Path → Bool
  | [] => false
  | step :: above => accepts (step :: above) || within accepts above

mutual

/-- What is in an element is within what that element is within. -/
theorem Element.within_of_mem_visitsBelow {accepts : Path → Bool} {above : Path}
    {place : Option Nat} {e : Element} (h : Path.within accepts (⟨e, place⟩ :: above)) {v : Visit}
    (hv : v ∈ e.visitsBelow above place) :
  v.path.within accepts
  := by
  match e with
  | ⟨tag, attributes, children⟩ =>
    rw [Element.visitsBelow] at hv
    rcases List.mem_cons.mp hv with rfl | hv
    · apply h
    · apply Node.within_of_mem_visitsFrom h hv

theorem Node.within_of_mem_visitsBelow {accepts : Path → Bool} {above : Path} {place : Nat}
    {n : Node} (h : above.within accepts) {v : Visit} (hv : v ∈ n.visitsBelow above place) :
  v.path.within accepts
  := by
  match n with
  | .element e =>
    apply Element.within_of_mem_visitsBelow _ hv
    rw [Path.within, h, Bool.or_true]
  | .text content =>
    obtain rfl := List.mem_singleton.mp hv
    apply h

theorem Node.within_of_mem_visitsFrom {accepts : Path → Bool} {above : Path} {place : Nat}
    {ns : List Node} (h : above.within accepts) {v : Visit}
    (hv : v ∈ Node.visitsFrom above place ns) :
  v.path.within accepts
  := by
  match ns with
  | [] => cases hv
  | n :: ns =>
    rcases List.mem_append.mp hv with hv | hv
    · apply Node.within_of_mem_visitsBelow h hv
    · apply Node.within_of_mem_visitsFrom h hv

end

/-- A visited node without its children and without the places and the children of the elements
above it. -/
def Visit.bare (v : Visit) : Visit := ⟨v.node.setChildren [], none, v.above.bare⟩

theorem Node.visitsFrom_append (above : Path) (place : Nat) (ns ms : List Node) :
  Node.visitsFrom above place (ns ++ ms)
    = Node.visitsFrom above place ns ++ Node.visitsFrom above (place + ns.length) ms
  := by
  induction ns generalizing place with
  | nil => rfl
  | cons n ns ih =>
    rw [List.cons_append, Node.visitsFrom, Node.visitsFrom, ih, List.append_assoc,
      List.length_cons, Nat.add_assoc, Nat.add_comm 1]

mutual

/-- The pruned tree has the nodes of the tree that are not within an element that passes the test,
in document order, whatever their places are. -/
theorem Element.map_bare_visitsBelow_pruned {accepts : Path → Bool} {above above' : Path}
    (habove : above.within accepts = false) (hbare : above'.bare = above.bare)
    {place : Option Nat} (place' : Option Nat) {e : Element}
    (he : accepts (⟨e, place⟩ :: above) = false) :
  ((e.pruned accepts above place).visitsBelow above' place').map Visit.bare
    = ((e.visitsBelow above place).filter fun v => !v.path.within accepts).map Visit.bare
  := by
  match e with
  | ⟨tag, attributes, children⟩ =>
    have hwithin : Path.within accepts (⟨⟨tag, attributes, children⟩, place⟩ :: above) = false := by
      rw [Path.within, he, habove]
      rfl
    rw [Element.pruned, Element.visitsBelow, Element.visitsBelow, List.map_cons,
      List.filter_cons_of_pos (by simpa [Visit.path] using hwithin), List.map_cons]
    congr 1
    · simp only [Visit.bare, hbare]
      rfl
    · apply Node.map_bare_visitsFrom_prunedAll hwithin
      simp only [Path.bare, List.map_cons] at hbare ⊢
      rw [hbare]
      rfl

theorem Node.map_bare_visitsFrom_pruned {accepts : Path → Bool} {above above' : Path}
    (habove : above.within accepts = false) (hbare : above'.bare = above.bare) (place place' : Nat)
    (n : Node) :
  (Node.visitsFrom above' place' (n.pruned accepts above place)).map Visit.bare
    = ((n.visitsBelow above place).filter fun v => !v.path.within accepts).map Visit.bare
  := by
  match n with
  | .element e =>
    rw [Node.pruned, Node.visitsBelow]
    split
    · next he =>
      rw [List.filter_eq_nil_iff.mpr]
      · rfl
      · intro v hv
        have hwithin : Path.within accepts (⟨e, some place⟩ :: above) = true := by
          rw [Path.within, he, Bool.true_or]
        simp [Element.within_of_mem_visitsBelow hwithin hv]
    · next he =>
      rw [Node.visitsFrom, Node.visitsFrom, Node.visitsBelow, List.append_nil]
      apply Element.map_bare_visitsBelow_pruned habove hbare
      simpa using he
  | .text content =>
    rw [Node.pruned, Node.visitsFrom, Node.visitsFrom, Node.visitsBelow, Node.visitsBelow,
      List.append_nil, List.filter_cons_of_pos (by simp [Visit.path, habove])]
    simp [Visit.bare, hbare]

theorem Node.map_bare_visitsFrom_prunedAll {accepts : Path → Bool} {above above' : Path}
    (habove : above.within accepts = false) (hbare : above'.bare = above.bare) (place place' : Nat)
    (ns : List Node) :
  (Node.visitsFrom above' place' (Node.prunedAll accepts above place ns)).map Visit.bare
    = ((Node.visitsFrom above place ns).filter fun v => !v.path.within accepts).map Visit.bare
  := by
  match ns with
  | [] => rfl
  | n :: ns =>
    rw [Node.prunedAll, Node.visitsFrom_append, Node.visitsFrom, List.map_append,
      List.filter_append, List.map_append, Node.map_bare_visitsFrom_pruned habove hbare,
      Node.map_bare_visitsFrom_prunedAll habove hbare]

end

/-- The nodes of the tree without what is selected are those that are not within it, in the same
order. -/
theorem Element.map_bare_visits_pruned {accepts : Path → Bool} {root : Element}
    (h : accepts (.single root) = false) :
  (root.pruned accepts [] none).visits.map Visit.bare
    = (root.visits.filter fun v => !v.path.within accepts).map Visit.bare
  := by
  apply Element.map_bare_visitsBelow_pruned rfl rfl none h

mutual

/-- Nothing is cut out below an element where no element passes the test. -/
theorem Element.pruned_eq_self {accepts : Path → Bool} {above : Path} {place : Option Nat}
    {e : Element} (h : ∀ v ∈ e.visitsBelow above place, v.selected accepts = false) :
  e.pruned accepts above place = e
  := by
  match e with
  | ⟨tag, attributes, children⟩ =>
    rw [Element.visitsBelow] at h
    rw [Element.pruned, Node.prunedAll_eq_self (List.forall_mem_cons.mp h).2]

theorem Node.pruned_eq_self {accepts : Path → Bool} {above : Path} {place : Nat} {n : Node}
    (h : ∀ v ∈ n.visitsBelow above place, v.selected accepts = false) :
  n.pruned accepts above place = [n]
  := by
  match n with
  | .element ⟨tag, attributes, children⟩ =>
    rw [Node.visitsBelow] at h
    have hroot : accepts (⟨⟨tag, attributes, children⟩, some place⟩ :: above) = false :=
      h _ (List.mem_cons_self ..)
    rw [Node.pruned, hroot, Element.pruned_eq_self h]
    rfl
  | .text content => rfl

theorem Node.prunedAll_eq_self {accepts : Path → Bool} {above : Path} {place : Nat}
    {ns : List Node} (h : ∀ v ∈ Node.visitsFrom above place ns, v.selected accepts = false) :
  Node.prunedAll accepts above place ns = ns
  := by
  match ns with
  | [] => rfl
  | n :: ns =>
    obtain ⟨hn, hns⟩ := List.forall_mem_append.mp h
    rw [Node.prunedAll, Node.pruned_eq_self hn, Node.prunedAll_eq_self hns]
    rfl

end

/-! ### Removing by a selector -/

/-- A selector without pseudo-classes does not see places. -/
theorem Visit.selected_bare {s : Selector} (hs : s.IsPlain) (v : Visit) :
  v.bare.selected s.accepts = v.selected s.accepts
  := by
  obtain ⟨n, place, above⟩ := v
  cases n with
  | element e => apply Selector.accepts_bare hs (⟨e, place⟩ :: above)
  | text content => rfl

/-- A selected element is within a selected element. -/
theorem Visit.within_of_selected {accepts : Path → Bool} {v : Visit} (h : v.selected accepts) :
  v.path.within accepts
  := by
  obtain ⟨n, place, above⟩ := v
  cases n with
  | element e => apply Bool.or_eq_true_iff.mpr (.inl h)
  | text content => cases h

/-- No element that is left is selected in the new tree, since its path is as before, apart from
places and children. -/
theorem Element.selected_eq_false_of_mem_visits_pruned {s : Selector} (hs : s.IsPlain)
    {root : Element} (h : s.accepts (.single root) = false) {v : Visit}
    (hv : v ∈ (root.pruned s.accepts [] none).visits) :
  v.selected s.accepts = false
  := by
  have hbare := List.mem_map_of_mem (f := Visit.bare) hv
  rw [Element.map_bare_visits_pruned h] at hbare
  obtain ⟨u, hu, heq⟩ := List.mem_map.mp hbare
  have houtside := (List.mem_filter.mp hu).2
  rw [← Visit.selected_bare hs, ← heq, Visit.selected_bare hs, Bool.eq_false_iff]
  intro hselected
  rw [Visit.within_of_selected hselected] at houtside
  cases houtside

/-- Removing what a selector without pseudo-classes selects fails if the root is selected.
Otherwise it leaves the other nodes in document order: those that are not within a selected
element.  Nothing is selected in the new tree, and removing from it gives it back. -/
theorem Selection.remove_ofSelector {s : Selector} (hs : s.IsPlain) (root : Element) :
  let rest := root.pruned s.accepts [] none
  (ofSelector s root).remove
      = (if s.accepts (.single root) then .error (.format (.rootNotOneElement [])) else .ok rest)
    ∧ (s.accepts (.single root) = false →
      rest.visits.map Visit.bare
          = (root.visits.filter fun v => !v.path.within s.accepts).map Visit.bare
        ∧ (ofSelector s rest).toList = []
        ∧ (ofSelector s rest).remove = .ok rest)
  := by
  intro rest
  use remove_ofTest s.accepts root
  intro hroot
  have hnone : ∀ v ∈ rest.visits, v.selected s.accepts = false :=
    fun v hv => Element.selected_eq_false_of_mem_visits_pruned hs hroot hv
  have hsame : rest.pruned s.accepts [] none = rest := Element.pruned_eq_self hnone
  have hrest : s.accepts (.single rest) = false := by
    apply hnone ⟨.element rest, none, []⟩
    change _ ∈ Visit.below ⟨.element rest, none, []⟩
    rw [Visit.below_eq]
    apply List.mem_cons_self
  refine ⟨Element.map_bare_visits_pruned hroot, ?_, ?_⟩
  · rw [toList_eq (Walk.idle_start rest none ()), ofSelector, ahead_ofTest, Visit.elements,
      List.filter_eq_nil_iff.mpr]
    · rfl
    · intro v hv
      rw [hnone v hv]
      apply Bool.false_ne_true
  · rw [ofSelector, remove_ofTest, hrest, hsame]
    rfl

/-- Of links within links, and beside each other, nothing is left. -/
theorem Selection.remove_ofSelector_nested :
  let link : Node := .element ⟨"a", .empty, [.text "x"]⟩
  let outer : Node := .element ⟨"a", .empty, [link]⟩
  let p : Node := .element ⟨"p", .empty, [link, .text "u"]⟩
  let s : Selector := [[[.element "a"]]]
  let root : Element := ⟨"div", .empty, [outer, link, .text "t", p]⟩
  let rest : Element := ⟨"div", .empty, [.text "t", .element ⟨"p", .empty, [.text "u"]⟩]⟩
  s.IsPlain ∧ (ofSelector s root).remove = .ok rest ∧ (ofSelector s rest).toList = []
    ∧ (ofSelector s rest).remove = .ok rest
  := by
  intro link outer p s root rest
  have hs : s.IsPlain := by decide
  have hroot : s.accepts (.single root) = false := by decide
  have hrest : root.pruned s.accepts [] none = rest := by rfl
  obtain ⟨hremove, hleft⟩ := remove_ofSelector hs root
  obtain ⟨-, hnone, hagain⟩ := hleft hroot
  rw [hroot, hrest] at hremove
  rw [hrest] at hnone hagain
  exact ⟨hs, hremove, hnone, hagain⟩

end Hypertext
