import Hypertext.Proofs.Walk.Calls

/-!
# Outlines

The outline of a tree lists its nodes in document order, each with its places and without what is in
it.  It says all about the tree: `Element.eq_of_outline`.
-/

namespace Hypertext

/-- The places of a visited node, and the node without what is in it. -/
def Visit.entry (v : Visit) : List (Option Nat) × Node := (v.places, v.node.setChildren [])

/-- The nodes of a tree in document order, each with its places and without what is in it. -/
def Element.outline (e : Element) : List (List (Option Nat) × Node) := e.visits.map Visit.entry

/-! ### Places in a tree -/

section

variable {above : Path} {v : Visit}

/-- The places of a node below another one end in those of that one. -/
theorem Node.places_of_mem_below {place : Option Nat} {n : Node}
    (h : v ∈ Visit.below ⟨n, place, above⟩) :
  place :: above.map (·.place) <:+ v.places
  := by
  apply Node.places_of_mem_departures
  apply (Node.perm_departures above place n).mem_iff.mpr h

/-- The places of a node among children end in that of a child at or behind the first. -/
theorem Node.places_of_mem_visitsFrom {place : Nat} {ns : List Node}
    (h : v ∈ Node.visitsFrom above place ns) :
  ∃ p, place ≤ p ∧ some p :: above.map (·.place) <:+ v.places
  := by
  apply Node.places_of_mem_departuresAll
  apply (Node.perm_departuresAll above place ns).mem_iff.mpr h

end

/-- Two lists agree in their parts if the first part is told from the second by its members. -/
theorem eq_and_eq_of_append_eq {α : Type} {p : α → Bool} {as as' bs bs' : List α}
    (has : ∀ a ∈ as, p a) (has' : ∀ a ∈ as', p a) (hbs : ∀ b ∈ bs, ¬p b) (hbs' : ∀ b ∈ bs', ¬p b)
    (h : as ++ bs = as' ++ bs') :
  as = as' ∧ bs = bs'
  := by
  have hfilter := congrArg (List.filter p) h
  rw [List.filter_append, List.filter_append, List.filter_eq_self.mpr has,
    List.filter_eq_self.mpr has', List.filter_eq_nil_iff.mpr hbs, List.filter_eq_nil_iff.mpr hbs',
    List.append_nil, List.append_nil] at hfilter
  refine ⟨hfilter, ?_⟩
  rw [hfilter] at h
  apply List.append_cancel_left h

/-- The entries of the first of several trees can be told from those of the others by their
places. -/
theorem Node.entries_cons_inj {above above' : Path}
    (habove : above'.map (·.place) = above.map (·.place)) {place : Nat} {n n' : Node}
    {ns ns' : List Node}
    (h : (Node.visitsFrom above place (n :: ns)).map Visit.entry
      = (Node.visitsFrom above' place (n' :: ns')).map Visit.entry) :
  (Visit.below ⟨n, some place, above⟩).map Visit.entry
      = (Visit.below ⟨n', some place, above'⟩).map Visit.entry
    ∧ (Node.visitsFrom above (place + 1) ns).map Visit.entry
      = (Node.visitsFrom above' (place + 1) ns').map Visit.entry
  := by
  let first (x : List (Option Nat) × Node) : Bool :=
    decide (some place :: above.map (·.place) <:+ x.1)
  have hbelow : ∀ (above' : Path) (n : Node), above'.map (·.place) = above.map (·.place) →
      ∀ x ∈ (Visit.below ⟨n, some place, above'⟩).map Visit.entry, first x := by
    intro above' n habove x hx
    obtain ⟨v, hv, rfl⟩ := List.mem_map.mp hx
    apply decide_eq_true
    rw [← habove]
    apply Node.places_of_mem_below hv
  have hafter : ∀ (above' : Path) (ns : List Node), above'.map (·.place) = above.map (·.place) →
      ∀ x ∈ (Node.visitsFrom above' (place + 1) ns).map Visit.entry, ¬first x := by
    intro above' ns habove x hx hfirst
    obtain ⟨v, hv, rfl⟩ := List.mem_map.mp hx
    obtain ⟨p, hle, hlater⟩ := Node.places_of_mem_visitsFrom hv
    rw [habove] at hlater
    obtain rfl := Option.some.inj (eq_of_cons_suffix (of_decide_eq_true hfirst) hlater)
    apply absurd hle (Nat.not_succ_le_self place)
  rw [Node.visitsFrom_cons, Node.visitsFrom_cons, List.map_append, List.map_append] at h
  apply eq_and_eq_of_append_eq _ _ _ _ h
  · exact first
  · apply hbelow above n rfl
  · apply hbelow above' n' habove
  · apply hafter above ns rfl
  · apply hafter above' ns' habove

/-! ### Trees of one outline -/

mutual

/-- A node is determined by the outline of what is below it. -/
theorem Node.eq_of_entries {above above' : Path}
    (habove : above'.map (·.place) = above.map (·.place)) {place : Option Nat} {n n' : Node}
    (h : (Visit.below ⟨n, place, above⟩).map Visit.entry
      = (Visit.below ⟨n', place, above'⟩).map Visit.entry) :
  n = n'
  := by
  rw [Visit.below_eq, Visit.below_eq, List.map_cons, List.map_cons] at h
  obtain ⟨hhead, htail⟩ := List.cons.inj h
  obtain ⟨-, hnode⟩ := Prod.mk.inj hhead
  match n, n' with
  | .element ⟨tag, attributes, children⟩, .element ⟨tag', attributes', children'⟩ =>
    obtain ⟨rfl, rfl, -⟩ := Element.mk.inj (Node.element.inj hnode)
    have hchildren : children = children' := by
      apply Node.eq_of_entriesFrom _ htail
      simp only [Visit.path, List.map_cons, habove]
    rw [hchildren]
  | .text content, .text content' => exact hnode
  | .element e, .text content => cases hnode
  | .text content, .element e => cases hnode

theorem Node.eq_of_entriesFrom {above above' : Path}
    (habove : above'.map (·.place) = above.map (·.place)) {place : Nat} {ns ns' : List Node}
    (h : (Node.visitsFrom above place ns).map Visit.entry
      = (Node.visitsFrom above' place ns').map Visit.entry) :
  ns = ns'
  := by
  match ns, ns' with
  | [], [] => rfl
  | n :: ns, n' :: ns' =>
    obtain ⟨hfirst, hrest⟩ := Node.entries_cons_inj habove h
    rw [Node.eq_of_entries habove hfirst, Node.eq_of_entriesFrom habove hrest]
  | [], n' :: ns' =>
    rw [Node.visitsFrom_cons, Visit.below_eq] at h
    cases h
  | n :: ns, [] =>
    rw [Node.visitsFrom_cons, Visit.below_eq] at h
    cases h

end

/-- Trees of one outline are the same. -/
theorem Element.eq_of_outline {e e' : Element} (h : e.outline = e'.outline) :
  e = e'
  := by
  have hbelow : (Visit.below ⟨.element e, none, []⟩).map Visit.entry
      = (Visit.below ⟨.element e', none, []⟩).map Visit.entry := h
  apply Node.element.inj (Node.eq_of_entries rfl hbelow)

end Hypertext
