import Hypertext.Proofs.Selection
import Hypertext.Proofs.Selector.Match

/-!
# Matching in a part of a tree

A part of a tree is an element with all that is in it.  `Path.under` continues a path in a part to
the root of the tree, and `Visit.under` says where a node of the part stands in the tree.

What a selector accepts on a path it accepts on the continued path: there are more elements above to
choose from, the root of the part may turn out to be a first or last child, and nothing else is
different.  So whatever is selected in a part, searched on its own, is selected at the same place
when the tree is searched, as `selected_part_sublist` says.
-/

namespace Hypertext

/-! ### Paths in a part of a tree -/

/-- A path in a part of a tree, continued to the root of the tree, given the place of the part and
the path above it. -/
def Path.under : Path → Option Nat → Path → Path
  | [], _, above => above
  | step :: rest, place, above =>
    ⟨step.element, if rest.isEmpty then place else step.place⟩ :: under rest place above

/-- A node of a part of a tree as a node of the tree, given the place of the part and the path above
it. -/
def Visit.under (v : Visit) (place : Option Nat) (above : Path) : Visit :=
  ⟨v.node, if v.above.isEmpty then place else v.place, v.above.under place above⟩

section

variable {place : Option Nat} {above : Path}

/-- The places above a node of a part, up to the part, are followed by the place of the part and by
those above it. -/
theorem Path.places_under (step : Step) (rest : Path) :
  (Path.under (step :: rest) place above).map (·.place)
    = ((step :: rest).map (·.place)).dropLast ++ place :: above.map (·.place)
  := by
  induction rest generalizing step with
  | nil => rfl
  | cons next rest ih =>
    rw [Path.under, List.map_cons, ih next]
    rfl

/-- The places of a node of a part, in the tree: as for its path, where the element of a step does
not count. -/
theorem Visit.places_under (v : Visit) :
  (v.under place above).places = v.places.dropLast ++ place :: above.map (·.place)
  := by
  apply Path.places_under ⟨default, v.place⟩ v.above

/-! ### Document order -/

mutual

theorem Element.map_under_visitsBelow (own : Option Nat) (path : Path) (e : Element) :
  (e.visitsBelow path own).map (·.under place above)
    = e.visitsBelow (path.under place above) (if path.isEmpty then place else own)
  := by
  match e with
  | ⟨tag, attributes, children⟩ =>
    rw [Element.visitsBelow, Element.visitsBelow, List.map_cons,
      Node.map_under_visitsFrom (List.cons_ne_nil _ path) 0 children]
    rfl

theorem Node.map_under_visitsBelow {path : Path} (h : path ≠ []) (own : Nat) (n : Node) :
  (n.visitsBelow path own).map (·.under place above)
    = n.visitsBelow (path.under place above) own
  := by
  have hsome : path.isEmpty = false := List.isEmpty_eq_false_iff.mpr h
  match n with
  | .element e =>
    rw [Node.visitsBelow, Element.map_under_visitsBelow (some own) path e, hsome]
    rfl
  | .text content =>
    rw [Node.visitsBelow, Node.visitsBelow, List.map_singleton, Visit.under, hsome]
    rfl

theorem Node.map_under_visitsFrom {path : Path} (h : path ≠ []) (own : Nat) (ns : List Node) :
  (Node.visitsFrom path own ns).map (·.under place above)
    = Node.visitsFrom (path.under place above) own ns
  := by
  match ns with
  | [] => rfl
  | n :: ns =>
    rw [Node.visitsFrom, Node.visitsFrom, List.map_append, Node.map_under_visitsBelow h own n,
      Node.map_under_visitsFrom h (own + 1) ns]

end

/-- The nodes of a part of a tree are those from the root of the part down. -/
theorem Element.map_under_visits (e : Element) :
  e.visits.map (·.under place above) = Visit.below ⟨.element e, place, above⟩
  := Element.map_under_visitsBelow none [] e

end

mutual

/-- The nodes of a part of a tree stand next to each other in document order. -/
theorem Node.below_infix {place : Option Nat} {above : Path} {n : Node} {v : Visit}
    (h : v ∈ Visit.below ⟨n, place, above⟩) :
  v.below <:+: Visit.below ⟨n, place, above⟩
  := by
  rw [Visit.below_eq] at h
  rcases List.mem_cons.mp h with rfl | h
  · apply List.infix_rfl
  · rw [Visit.below_eq ⟨n, place, above⟩]
    match n with
    | .element ⟨tag, attributes, children⟩ =>
      apply (Node.below_infix_visitsFrom h).trans
      apply (List.suffix_cons _ _).isInfix
    | .text content => cases h

theorem Node.below_infix_visitsFrom {place : Nat} {above : Path} {ns : List Node} {v : Visit}
    (h : v ∈ Node.visitsFrom above place ns) :
  v.below <:+: Node.visitsFrom above place ns
  := by
  match ns with
  | [] => cases h
  | n :: ns =>
    rw [Node.visitsFrom_cons] at h ⊢
    rcases List.mem_append.mp h with h | h
    · apply (Node.below_infix h).trans
      apply (List.prefix_append _ _).isInfix
    · apply (Node.below_infix_visitsFrom h).trans
      apply (List.suffix_append _ _).isInfix

end

/-- The nodes of a part are a run of those of the tree. -/
theorem Element.below_infix_visits {root : Element} {v : Visit} (h : v ∈ root.visits) :
  v.below <:+: root.visits
  := by
  have hroot : v ∈ Visit.below ⟨.element root, none, []⟩ := h
  apply Node.below_infix hroot

/-! ### Matching -/

namespace Selector

section

variable {place : Option Nat} {above p : Path}

theorem PseudoClass.accepts_under {c : PseudoClass} (h : c.accepts p) :
  c.accepts (p.under place above)
  := by
  match c, p with
  | .empty, step :: rest => exact h
  | .firstChild, step :: parent :: rest => exact h
  | .lastChild, step :: parent :: rest => exact h

theorem Simple.accepts_under {s : Simple} (h : s.accepts p) :
  s.accepts (p.under place above)
  := by
  match s, p with
  | .element name, step :: rest => exact h
  | .universal, step :: rest => exact h
  | .className name, step :: rest => exact h
  | .id name, step :: rest => exact h
  | .attribute test, step :: rest => exact h
  | .pseudo kinds, step :: rest =>
    rw [Simple.accepts, List.all_eq_true] at h
    rw [Path.under, Simple.accepts, List.all_eq_true]
    intro kind hkind
    apply PseudoClass.accepts_under (h kind hkind)

theorem Compound.accepts_under {c : Compound} (h : c.accepts p) :
  c.accepts (p.under place above)
  := by
  rw [Compound.accepts, List.all_eq_true] at h ⊢
  intro s hs
  apply Simple.accepts_under (h s hs)

/-- Where compound selectors match, those after the first one do. -/
theorem climbs_of_cons {c : Compound} {cs : List Compound} (h : climbs (c :: cs) p) :
  climbs cs p
  := by
  obtain ⟨depths, hdecreasing, hbounded, haccepts⟩ := climbs_iff.mp h
  obtain ⟨depth, depths, -, hrest, rfl⟩ := List.forall₂_cons_left_iff.mp haccepts
  apply climbs_iff.mpr
  exact ⟨depths, hdecreasing.tail, (List.forall_mem_cons.mp hbounded).2, hrest⟩

/-- Where compound selectors match in a part of a tree they match in the tree.  An element that
matches there may be nearer than the one that matched in the part. -/
theorem climbs_under {cs : List Compound} (h : climbs cs p) :
  climbs cs (p.under place above)
  := by
  induction p generalizing cs with
  | nil =>
    cases cs with
    | nil => rw [climbs]
    | cons c cs => cases h
  | cons step rest ih =>
    cases cs with
    | nil => rw [climbs]
    | cons c cs =>
      rw [climbs] at h
      by_cases hunder : c.accepts (Path.under (step :: rest) place above)
      · rw [Path.under] at hunder ⊢
        rw [climbs, if_pos hunder]
        apply ih
        split at h
        · exact h
        · apply climbs_of_cons h
      · have hpart : ¬c.accepts (step :: rest) := fun hpart =>
          hunder (Compound.accepts_under hpart)
        rw [if_neg hpart] at h
        rw [Path.under] at hunder ⊢
        rw [climbs, if_neg hunder]
        apply ih h

/-- What a complex selector accepts in a part of a tree it accepts in the tree. -/
theorem Complex.accepts_under {c : Complex} (h : Complex.accepts c p) :
  Complex.accepts c (p.under place above)
  := by
  unfold Complex.accepts at h ⊢
  generalize c.reverse = compounds at h ⊢
  cases compounds with
  | nil => cases h
  | cons last outer =>
    cases p with
    | nil => cases h
    | cons step rest =>
      obtain ⟨hlast, houter⟩ := Bool.and_eq_true_iff.mp h
      apply Bool.and_eq_true_iff.mpr
      exact ⟨Compound.accepts_under (p := step :: rest) hlast, climbs_under houter⟩

/-- What a selector accepts on a path in a part of a tree it accepts on the path in the tree. -/
theorem accepts_under {s : Selector} (h : s.accepts p) :
  s.accepts (p.under place above)
  := by
  rw [accepts, List.any_eq_true] at h ⊢
  obtain ⟨c, hc, haccepts⟩ := h
  exact ⟨c, hc, Complex.accepts_under haccepts⟩

end

end Selector

/-! ### Searching -/

/-- What is selected in a part of a tree is selected in the tree. -/
theorem Visit.selected_under {s : Selector} {place : Option Nat} {above : Path} {v : Visit}
    (h : v.selected s.accepts) :
  (v.under place above).selected s.accepts
  := by
  obtain ⟨n, own, rest⟩ := v
  cases n with
  | element e => apply Selector.accepts_under (p := ⟨e, own⟩ :: rest) h
  | text content => cases h

/-- What is selected in a part of a tree, searched on its own, is selected at the same place of it
when the tree is searched, in the same order: at the places in the part, followed by that of the
part. -/
theorem Selection.selected_part_sublist (s : Selector) {root : Element} {v : Visit}
    (hv : v ∈ root.visits) {part : Element} (hpart : v.node = .element part) :
  let selected (root : Element) := root.visits.filter (·.selected s.accepts)
  (∀ e, (ofSelector s e).toList = (selected e).filterMap (·.node.element?))
    ∧ ((selected part).map (·.under v.place v.above)).Sublist (selected root)
    ∧ (∀ u ∈ selected part, (u.under v.place v.above).node = u.node
      ∧ (u.under v.place v.above).places = u.places.dropLast ++ v.places)
    ∧ (ofSelector s part).toList.Sublist (ofSelector s root).toList
  := by
  intro selected
  have hfound (e : Element) : (ofSelector s e).toList = (selected e).filterMap (·.node.element?) :=
    toList_ofTest s.accepts e
  obtain ⟨n, place, above⟩ := v
  obtain rfl : n = .element part := hpart
  have hbelow : (part.visits.map (·.under place above)).Sublist root.visits := by
    rw [part.map_under_visits]
    apply (Element.below_infix_visits hv).sublist
  have hselected : ((selected part).map (·.under place above)).Sublist (selected root) := by
    apply List.Sublist.trans _ (hbelow.filter _)
    rw [List.filter_map]
    apply List.Sublist.map
    apply List.monotone_filter_right
    intro u hu
    apply Visit.selected_under hu
  refine ⟨hfound, hselected, ?_, ?_⟩
  · intro u _
    exact ⟨rfl, u.places_under⟩
  · have helements := hselected.filterMap (·.node.element?)
    rw [List.filterMap_map] at helements
    rw [hfound, hfound]
    apply helements

/-- A last child of a paragraph is selected in the paragraph and in the whole tree. -/
theorem Selection.selected_part_sublist_paragraph :
  let i : Element := .ofTag "i"
  let b : Element := ⟨"b", .empty, [.text "x", .element i]⟩
  let part : Element := ⟨"p", .empty, [.element b]⟩
  let root : Element := ⟨"div", .empty, [.text "t", .element part]⟩
  let s : Selector := [[[.universal], [.pseudo [.lastChild]]]]
  let v : Visit := ⟨.element part, some 1, [⟨root, none⟩]⟩
  let u : Visit := ⟨.element i, some 1, [⟨b, some 0⟩, ⟨part, none⟩]⟩
  v ∈ root.visits
    ∧ v.node = .element part
    ∧ u ∈ part.visits.filter (·.selected s.accepts)
    ∧ (u.under v.place v.above).places = [some 1, some 0, some 1, none]
    ∧ (ofSelector s part).toList = [b, i]
    ∧ (ofSelector s root).toList = [part, b, i]
    ∧ [b, i].Sublist [part, b, i]
  := by
  intro i b part root s v u
  have hv : v ∈ root.visits := by
    apply List.mem_of_getElem? (i := 2)
    rfl
  have hu : u ∈ part.visits.filter (·.selected s.accepts) := by
    apply List.mem_of_getElem? (i := 1)
    rfl
  have hpart : (ofSelector s part).toList = [b, i] := by
    rw [ofSelector, toList_ofTest]
    rfl
  have hroot : (ofSelector s root).toList = [part, b, i] := by
    rw [ofSelector, toList_ofTest]
    rfl
  obtain ⟨-, -, hplaces, hsublist⟩ := selected_part_sublist s hv rfl
  rw [hpart, hroot] at hsublist
  exact ⟨hv, rfl, hu, (hplaces u hu).2, hpart, hroot, hsublist⟩

end Hypertext
