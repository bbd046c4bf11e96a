import Hypertext.Proofs.Walk.Calls
import Hypertext.Selector.Canonical
import Hypertext.Selector.Match

/-!
# Selectors without pseudo-classes

A selector without pseudo-classes asks for tags and attributes only.  `accepts_bare` says that it
accepts a path whenever it accepts the same elements without their children and places.
-/

namespace Hypertext

/-- A path with the children and the places of its elements left out. -/
def Path.bare (p : Path) : Path := p.map fun step => ⟨step.element.bare, none⟩

namespace Selector

/-- Whether there are no pseudo-classes in a compound selector. -/
def Compound.IsPlain (c : Compound) : Prop := ∀ s ∈ c, s.isPseudo = false

/-- Whether there are no pseudo-classes in a selector. -/
def IsPlain (s : Selector) : Prop := ∀ c ∈ s, ∀ d ∈ c, Compound.IsPlain d

instance (c : Compound) : Decidable (Compound.IsPlain c) := by
  unfold Compound.IsPlain
  infer_instance

instance (s : Selector) : Decidable s.IsPlain := by
  unfold IsPlain
  infer_instance

/-- A simple selector other than a pseudo-class does not see places and neighbours. -/
theorem Simple.accepts_bare {s : Simple} (h : s.isPseudo = false) (p : Path) :
  s.accepts p.bare = s.accepts p
  := by
  match s, p with
  | .element name, [] => rfl
  | .universal, [] => rfl
  | .className name, [] => rfl
  | .id name, [] => rfl
  | .attribute test, [] => rfl
  | .element name, step :: above => rfl
  | .universal, step :: above => rfl
  | .className name, step :: above => rfl
  | .id name, step :: above => rfl
  | .attribute test, step :: above => rfl

/-- A plain compound selector does not see places and neighbours. -/
theorem Compound.accepts_bare {c : Compound} (h : c.IsPlain) (p : Path) :
  c.accepts p.bare = c.accepts p
  := by
  rw [accepts, accepts]
  induction c with
  | nil => rfl
  | cons s c ih =>
    obtain ⟨hs, hc⟩ := List.forall_mem_cons.mp h
    rw [List.all_cons, List.all_cons, Simple.accepts_bare hs, ih hc]

theorem climbs_bare {cs : List Compound} (h : ∀ c ∈ cs, c.IsPlain) (p : Path) :
  climbs cs p.bare = climbs cs p
  := by
  induction p generalizing cs with
  | nil => rfl
  | cons step above ih =>
    match cs with
    | [] => rfl
    | c :: cs =>
      obtain ⟨hc, hcs⟩ := List.forall_mem_cons.mp h
      have haccepts := Compound.accepts_bare hc (step :: above)
      rw [climbs, ← ih h, ← ih hcs, ← haccepts]
      rfl

/-- A plain complex selector does not see places and neighbours. -/
theorem Complex.accepts_bare {c : Complex} (h : ∀ d ∈ c, Compound.IsPlain d) (p : Path) :
  Complex.accepts c p.bare = Complex.accepts c p
  := by
  have hreverse : ∀ d ∈ c.reverse, Compound.IsPlain d := by
    intro d hd
    apply h d (List.mem_reverse.mp hd)
  unfold Complex.accepts
  match c.reverse, p, hreverse with
  | [], _, _ => rfl
  | _ :: _, [], _ => rfl
  | last :: outer, step :: above, hreverse =>
    obtain ⟨hlast, houter⟩ := List.forall_mem_cons.mp hreverse
    have haccepts := Compound.accepts_bare hlast (step :: above)
    have hclimbs := climbs_bare houter above
    exact congrArg₂ and haccepts hclimbs

/-- Without pseudo-classes it does not matter what is in the elements of a path, and where they
stand. -/
theorem accepts_bare {s : Selector} (h : s.IsPlain) (p : Path) :
  s.accepts p.bare = s.accepts p
  := by
  rw [accepts, accepts]
  induction s with
  | nil => rfl
  | cons c s ih =>
    obtain ⟨hc, hs⟩ := List.forall_mem_cons.mp h
    rw [List.any_cons, List.any_cons, Complex.accepts_bare hc, ih hs]

end Selector

end Hypertext
