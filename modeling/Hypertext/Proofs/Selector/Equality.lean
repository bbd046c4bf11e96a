import Hypertext.Proofs.Equality
import Hypertext.Proofs.Selection

/-!
# Matching in equal trees

Selectors read tags, attributes by name and numbers of children, which are the same in equal
elements.  So a selector accepts the same of two paths of equal elements in the same places, level
by level of the selector, and selecting in equal trees picks equal elements at the same places, as
`selected_of_beq` says.
-/

namespace Hypertext

/-! ### Elements on their own -/

namespace Selector

section

variable {e e' : Element}

/-- The tests of attributes do not tell equal elements apart. -/
theorem AttributeTest.acceptsElement_of_beq (t : AttributeTest) (h : e == e') :
  t.acceptsElement e = t.acceptsElement e'
  := by
  rw [acceptsElement, acceptsElement, Element.attribute?_of_beq h]

/-- The pseudo-classes that look at an element alone do not tell equal elements apart. -/
theorem PseudoClass.acceptsElement_of_beq (c : PseudoClass) (h : e == e') :
  c.acceptsElement e = c.acceptsElement e'
  := by
  cases c with
  | firstChild => rfl
  | lastChild => rfl
  | empty => apply Element.isEmpty_of_beq h

/-- Simple selectors do not tell equal elements apart. -/
theorem Simple.acceptsElement_of_beq (s : Simple) (h : e == e') :
  s.acceptsElement e = s.acceptsElement e'
  := by
  match s with
  | .element name => rw [acceptsElement, acceptsElement, ((Element.beq_iff e e').mp h).1]
  | .universal => rfl
  | .className name =>
    rw [acceptsElement, acceptsElement, Element.hasClass, Element.hasClass,
      Element.classList_of_beq h]
  | .id name => rw [acceptsElement, acceptsElement, Element.attribute?_of_beq h]
  | .attribute test => apply test.acceptsElement_of_beq h
  | .pseudo kinds =>
    rw [acceptsElement, acceptsElement,
      funext fun kind => PseudoClass.acceptsElement_of_beq kind h]

end

/-! ### Elements on a path -/

section

variable {p p' : Path}

theorem PseudoClass.accepts_congr (c : PseudoClass) (h : List.Forall₂ Step.Same p p') :
  c.accepts p = c.accepts p'
  := by
  cases h with
  | nil => rfl
  | cons hstep habove =>
    cases c with
    | empty => apply Element.isEmpty_of_beq hstep.element
    | firstChild =>
      cases habove with
      | nil => rfl
      | cons hparent _ => rw [accepts, accepts, hstep.place]
    | lastChild =>
      cases habove with
      | nil => rfl
      | cons hparent _ =>
        rw [accepts, accepts, hstep.place, Element.length_children_of_beq hparent.element]

theorem Simple.accepts_congr (s : Simple) (h : List.Forall₂ Step.Same p p') :
  s.accepts p = s.accepts p'
  := by
  cases h with
  | nil => rfl
  | cons hstep habove =>
    match s with
    | .pseudo kinds =>
      rw [accepts, accepts, funext fun kind => PseudoClass.accepts_congr kind (.cons hstep habove)]
    | .element name => apply Simple.acceptsElement_of_beq (.element name) hstep.element
    | .universal => rfl
    | .className name => apply Simple.acceptsElement_of_beq (.className name) hstep.element
    | .id name => apply Simple.acceptsElement_of_beq (.id name) hstep.element
    | .attribute test => apply Simple.acceptsElement_of_beq (.attribute test) hstep.element

theorem Compound.accepts_congr (c : Compound) (h : List.Forall₂ Step.Same p p') :
  c.accepts p = c.accepts p'
  := by
  rw [accepts, accepts, funext fun s => Simple.accepts_congr s h]

theorem climbs_congr (cs : List Compound) (h : List.Forall₂ Step.Same p p') :
  climbs cs p = climbs cs p'
  := by
  induction h generalizing cs with
  | nil => rfl
  | cons hstep habove ih =>
    cases cs with
    | nil => rfl
    | cons c cs => rw [climbs, climbs, c.accepts_congr (.cons hstep habove), ih, ih]

/-- Complex selectors do not tell equal elements in the same places apart. -/
theorem Complex.accepts_congr (c : Complex) (h : List.Forall₂ Step.Same p p') :
  Complex.accepts c p = Complex.accepts c p'
  := by
  unfold Complex.accepts
  cases h with
  | nil => rfl
  | cons hstep habove =>
    cases c.reverse with
    | nil => rfl
    | cons last outer =>
      exact congrArg₂ and (last.accepts_congr (.cons hstep habove)) (climbs_congr outer habove)

/-- A selector accepts the same of paths of equal elements in the same places. -/
theorem accepts_congr (s : Selector) (h : List.Forall₂ Step.Same p p') :
  s.accepts p = s.accepts p'
  := by
  rw [accepts, accepts, funext fun c => Complex.accepts_congr c h]

end

end Selector

/-! ### Searching -/

/-- Of equal nodes in the same places of equal elements both are selected, or neither is. -/
theorem Visit.selected_congr (s : Selector) {v v' : Visit} (h : v.Same v') :
  v.selected s.accepts = v'.selected s.accepts
  := by
  obtain ⟨n, place, above⟩ := v
  obtain ⟨n', place', above'⟩ := v'
  obtain ⟨hnode, rfl, habove⟩ := h
  obtain ⟨e, e', rfl, rfl, he⟩ | ⟨content, rfl, rfl⟩ := Node.cases_of_beq hnode
  · have hstep : Step.Same ⟨e, place⟩ ⟨e', place⟩ := ⟨he, rfl⟩
    apply s.accepts_congr (.cons hstep habove)
  · rfl

/-- What is selected among equal nodes is equal, one by one. -/
theorem Visit.same_selected (s : Selector) {vs vs' : List Visit}
    (h : List.Forall₂ Visit.Same vs vs') :
  List.Forall₂ Visit.Same (vs.filter (·.selected s.accepts)) (vs'.filter (·.selected s.accepts))
  := by
  apply List.rel_filter _ h
  intro v v' hv
  change v.selected s.accepts = true ↔ v'.selected s.accepts = true
  rw [Visit.selected_congr s hv]

/-- Selecting in equal trees picks the same places, and as many elements, which are equal one by
one: the elements at these places in document order. -/
theorem Selection.selected_of_beq (s : Selector) {root root' : Element} (h : root == root') :
  let selected (root : Element) := root.visits.filter (·.selected s.accepts)
  (∀ e, (ofSelector s e).toList = (selected e).filterMap (·.node.element?))
    ∧ (selected root).map (·.places) = (selected root').map (·.places)
    ∧ (ofSelector s root).toList.length = (ofSelector s root').toList.length
    ∧ List.Forall₂ (fun e e' => e == e') (ofSelector s root).toList (ofSelector s root').toList
  := by
  intro selected
  have hfound (e : Element) : (ofSelector s e).toList = (selected e).filterMap (·.node.element?) :=
    toList_ofTest s.accepts e
  have hsame : List.Forall₂ Visit.Same (selected root) (selected root') :=
    Visit.same_selected s (Element.same_visits h)
  have helements : List.Forall₂ (fun e e' => e == e') (ofSelector s root).toList
      (ofSelector s root').toList := by
    rw [hfound, hfound]
    apply List.rel_filterMap _ hsame
    intro v v' hv
    exact hv.element?
  have hplaces : (selected root).map (·.places) = (selected root').map (·.places) :=
    map_eq_map_of_forall₂ hsame fun _ _ hv => hv.places
  exact ⟨hfound, hplaces, helements.length_eq, helements⟩

/-- Trees whose attributes stand in another order are selected from alike. -/
theorem Selection.selected_of_beq_reordered :
  let stored : Attributes := .ofList [("class", "x y"), ("id", "key")]
  let reordered : Attributes := .ofList [("id", "key"), ("class", "x y")]
  let inner (attributes : Attributes) : Element := ⟨"b", attributes, []⟩
  let root (attributes : Attributes) : Element :=
    ⟨"a", attributes, [.text "t", .element (inner attributes)]⟩
  let s : Selector :=
    [[[.element "a"], [.className "y", .pseudo [.lastChild]]],
      [[.attribute ⟨"id", none, .equal, "key", none⟩, .universal]]]
  root stored == root reordered
    ∧ stored ≠ reordered
    ∧ (ofSelector s (root stored)).toList = [root stored, inner stored]
    ∧ (ofSelector s (root reordered)).toList = [root reordered, inner reordered]
    ∧ List.Forall₂ (fun e e' => e == e') [root stored, inner stored]
        [root reordered, inner reordered]
  := by
  intro stored reordered inner root s
  have hbeq : root stored == root reordered := by rfl
  have hstored : (ofSelector s (root stored)).toList = [root stored, inner stored] := by
    rw [ofSelector, toList_ofTest]
    rfl
  have hreordered :
      (ofSelector s (root reordered)).toList = [root reordered, inner reordered] := by
    rw [ofSelector, toList_ofTest]
    rfl
  have hne : stored ≠ reordered := by
    intro h
    have hpairs := congrArg Attributes.pairs h
    revert hpairs
    decide
  obtain ⟨-, -, -, helements⟩ := selected_of_beq s hbeq
  rw [hstored, hreordered] at helements
  exact ⟨hbeq, hne, hstored, hreordered, helements⟩

end Hypertext
