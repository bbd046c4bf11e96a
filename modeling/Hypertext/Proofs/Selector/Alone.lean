import Hypertext.Selector.Match

/-!
# Elements without surroundings

`acceptsElement` decides about an element whose surroundings are not known, and `accepts` about an
element on a path.  On the path of one element, which has nothing above it, the two agree at every
level of a selector, as `accepts_eq_acceptsElement` says: no element is a first or last child there,
and a chain of several compound selectors finds nothing to climb to.
-/

namespace Hypertext.Selector

section

variable (e : Element) (place : Option Nat)

theorem PseudoClass.accepts_alone (c : PseudoClass) :
  c.accepts [⟨e, place⟩] = c.acceptsElement e
  := by
  cases c <;> rfl

theorem Simple.accepts_alone (s : Simple) :
  s.accepts [⟨e, place⟩] = s.acceptsElement e
  := by
  match s with
  | .pseudo kinds =>
    rw [accepts, acceptsElement, funext (PseudoClass.accepts_alone e place)]
  | .element _ | .universal | .className _ | .id _ | .attribute _ => rfl

theorem Compound.accepts_alone (c : Compound) :
  c.accepts [⟨e, place⟩] = c.acceptsElement e
  := by
  rw [accepts, acceptsElement, funext (Simple.accepts_alone e place)]

/-- Above the path of one element nothing is left to climb. -/
theorem climbs_nil (cs : List Compound) :
  climbs cs [] = cs.isEmpty
  := by
  cases cs <;> rfl

theorem Complex.accepts_singleton (last : Compound) :
  Complex.accepts [last] [⟨e, place⟩] = last.acceptsElement e
  := by
  change (last.accepts [⟨e, place⟩] && climbs [] []) = last.acceptsElement e
  rw [climbs_nil, List.isEmpty_nil, Bool.and_true, Compound.accepts_alone]

/-- A chain that asks for an element above accepts no element alone. -/
theorem Complex.accepts_append (outer : Complex) (first last : Compound) :
  Complex.accepts (first :: (outer ++ [last])) [⟨e, place⟩] = false
  := by
  have hreverse : (first :: (outer ++ [last])).reverse = last :: (outer.reverse ++ [first]) := by
    simp
  have hclimbs : climbs (outer.reverse ++ [first]) [] = false := by
    rw [climbs_nil]
    simp
  delta Complex.accepts
  rw [hreverse]
  change (last.accepts [⟨e, place⟩] && climbs (outer.reverse ++ [first]) []) = false
  rw [hclimbs, Bool.and_false]

end

/-- On the path of one element, wherever that element stands, a selector accepts what it accepts
of the element without surroundings. -/
theorem accepts_eq_acceptsElement (s : Selector) (e : Element) (place : Option Nat) :
  s.accepts [⟨e, place⟩] = s.acceptsElement e
  := by
  rw [accepts, acceptsElement]
  congr 1
  funext c
  rcases c with _ | ⟨first, rest⟩
  · rfl
  · rcases List.eq_nil_or_concat rest with rfl | ⟨outer, last, rfl⟩
    · apply Complex.accepts_singleton
    · rw [List.concat_eq_append, Complex.accepts_append]
      cases outer <;> rfl

end Hypertext.Selector
