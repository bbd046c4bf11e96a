import Hypertext.Selector.Match
import Mathlib.Data.List.Forall2
import Mathlib.Tactic.Use

/-!
# Matching along a path

`Complex.accepts` goes up a path and takes the nearest element for each compound selector.
`Complex.accepts_iff` says that this finds a match whenever there is one: the compound selectors
match at some increasing depths, the last of them at the end of the path.

`Path.upTo` is the part of a path from the root down to a depth, so that a pseudo-class of a
compound selector is about the element at that depth and about its parent.
-/

namespace Hypertext

/-! ### Parts of a path -/

namespace Path

/-- The part of a path down to a depth, the root being at depth zero. -/
def upTo (p : Path) (depth : Nat) : Path := p.drop (p.length - (depth + 1))

theorem upTo_length (step : Step) (above : Path) :
  upTo (step :: above) above.length = step :: above
  := by
  rw [upTo, List.length_cons, Nat.sub_self, List.drop_zero]

theorem upTo_cons {above : Path} {depth : Nat} (h : depth < above.length) (step : Step) :
  upTo (step :: above) depth = above.upTo depth
  := by
  have hlength : (step :: above).length - (depth + 1) = above.length - (depth + 1) + 1 := by
    rw [List.length_cons]
    omega
  rw [upTo, hlength, List.drop_succ_cons, upTo]

end Path

namespace Selector

variable {c : Compound} {cs : List Compound} {step : Step} {above p : Path} {depths : List Nat}

/-! ### Ascents -/

/-- Whether compound selectors, innermost first, match at the given depths of a path, each at a
smaller depth than the one before. -/
structure Ascent (cs : List Compound) (p : Path) (depths : List Nat) : Prop where
  decreasing : depths.Pairwise (· > ·)
  bounded : ∀ depth ∈ depths, depth < p.length
  accepts : List.Forall₂ (fun c depth => Compound.accepts c (p.upTo depth)) cs depths

/-- What matches at depths of the elements above matches there on the whole path. -/
theorem forall₂_upTo_cons (hbounded : ∀ depth ∈ depths, depth < above.length) (step : Step) :
  List.Forall₂ (fun c depth => Compound.accepts c (Path.upTo (step :: above) depth)) cs depths
    ↔ List.Forall₂ (fun c depth => Compound.accepts c (above.upTo depth)) cs depths
  := by
  induction depths generalizing cs with
  | nil => rw [List.forall₂_nil_right_iff, List.forall₂_nil_right_iff]
  | cons depth depths ih =>
    cases cs with
    | nil => simp
    | cons c cs =>
      have hdepth := hbounded depth (.head depths)
      have hdepths : ∀ d ∈ depths, d < above.length := fun d hd => hbounded d (.tail depth hd)
      rw [List.forall₂_cons, List.forall₂_cons, Path.upTo_cons hdepth, ih hdepths]

/-- An ascent on the elements above is one on the whole path. -/
theorem Ascent.cons (h : Ascent cs above depths) (step : Step) :
  Ascent cs (step :: above) depths
  where
  decreasing := h.decreasing
  bounded depth hdepth := Nat.lt_succ_of_lt (h.bounded depth hdepth)
  accepts := (forall₂_upTo_cons h.bounded step).mpr h.accepts

/-- An ascent that does not use the first element of a path is one of the elements above. -/
theorem Ascent.of_cons (h : Ascent cs (step :: above) depths)
    (hbounded : ∀ depth ∈ depths, depth < above.length) :
  Ascent cs above depths
  where
  decreasing := h.decreasing
  bounded := hbounded
  accepts := (forall₂_upTo_cons hbounded step).mp h.accepts

/-- An ascent on the elements above goes on at the first element of a path that matches. -/
theorem Ascent.start (h : Ascent cs above depths) (hc : c.accepts (step :: above)) :
  Ascent (c :: cs) (step :: above) (above.length :: depths)
  := by
  have hstep := h.cons step
  constructor
  · apply List.Pairwise.cons h.bounded h.decreasing
  · intro depth hdepth
    rcases List.mem_cons.mp hdepth with rfl | hdepth
    · apply Nat.lt_succ_self
    · apply hstep.bounded depth hdepth
  · apply List.Forall₂.cons _ hstep.accepts
    rw [Path.upTo_length]
    apply hc

/-- Wherever the first compound selector matches, the others match above the first element. -/
theorem Ascent.tail {depth : Nat} (h : Ascent (c :: cs) (step :: above) (depth :: depths)) :
  Ascent cs above depths
  := by
  obtain ⟨hdecreasing, hbounded, haccepts⟩ := h
  obtain ⟨hfirst, hrest⟩ := List.pairwise_cons.mp hdecreasing
  obtain ⟨hdepth, hdepths⟩ := List.forall_mem_cons.mp hbounded
  apply Ascent.of_cons ⟨hrest, hdepths, (List.forall₂_cons.mp haccepts).2⟩
  intro d hd
  have hlt := hfirst d hd
  rw [List.length_cons] at hdepth
  omega

/-- If the first compound selector does not match the first element, all match above it. -/
theorem Ascent.skip (h : Ascent (c :: cs) (step :: above) depths)
    (hc : ¬c.accepts (step :: above)) :
  Ascent (c :: cs) above depths
  := by
  obtain ⟨hdecreasing, hbounded, haccepts⟩ := h
  cases haccepts with
  | @cons _ depth _ depths hdepth haccepts =>
    obtain ⟨hlt, -⟩ := List.forall_mem_cons.mp hbounded
    have hne : depth ≠ above.length := by
      rintro rfl
      rw [Path.upTo_length] at hdepth
      apply hc hdepth
    apply Ascent.of_cons ⟨hdecreasing, hbounded, .cons hdepth haccepts⟩
    obtain ⟨hfirst, -⟩ := List.pairwise_cons.mp hdecreasing
    rw [List.length_cons] at hlt
    intro d hd
    rcases List.mem_cons.mp hd with rfl | hd
    · omega
    · have := hfirst d hd
      omega

/-- Taking the nearest match for each compound selector finds an ascent if there is one: after a
nearer match there is no less room for the other compound selectors. -/
theorem climbs_iff :
  climbs cs p ↔ ∃ depths, Ascent cs p depths
  := by
  fun_induction climbs cs p with
  | case1 p =>
    use fun _ => ⟨[], .nil, nofun, .nil⟩
    intro _
    rfl
  | case2 c cs =>
    constructor
    · nofun
    · rintro ⟨depths, -, hbounded, haccepts⟩
      cases haccepts with
      | @cons _ depth _ depths => exact absurd (hbounded depth (.head depths)) (Nat.not_lt_zero _)
  | case3 c cs step above hc ih =>
    rw [ih]
    constructor
    · rintro ⟨depths, h⟩
      exact ⟨_, h.start hc⟩
    · rintro ⟨depths, h⟩
      obtain ⟨depth, depths, -, -, rfl⟩ := List.forall₂_cons_left_iff.mp h.accepts
      exact ⟨depths, h.tail⟩
  | case4 c cs step above hc ih =>
    rw [ih]
    constructor
    · rintro ⟨depths, h⟩
      exact ⟨depths, h.cons step⟩
    · rintro ⟨depths, h⟩
      exact ⟨depths, h.skip hc⟩

/-! ### Complex selectors -/

/-- Depths in reverse are an ascent that starts at the end of a path exactly if they increase up to
that end. -/
theorem ascent_reverse_iff (hp : p ≠ []) (hlast : depths.getLast? = some (p.length - 1)) :
  Ascent cs.reverse p depths.reverse
    ↔ depths.Pairwise (· < ·)
      ∧ List.Forall₂ (fun c depth => Compound.accepts c (p.upTo depth)) cs depths
  := by
  constructor
  · rintro ⟨hdecreasing, -, haccepts⟩
    exact ⟨List.pairwise_reverse.mp hdecreasing, List.forall₂_reverse_iff.mp haccepts⟩
  · rintro ⟨hincreasing, haccepts⟩
    refine ⟨List.pairwise_reverse.mpr hincreasing, ?_, List.forall₂_reverse_iff.mpr haccepts⟩
    intro depth hdepth
    obtain ⟨init, rfl⟩ := List.getLast?_eq_some_iff.mp hlast
    have hpos := List.length_pos_iff.mpr hp
    rcases List.mem_append.mp (List.mem_reverse.mp hdepth) with hinit | hend
    · have := (List.pairwise_append.mp hincreasing).2.2 depth hinit _ (List.mem_singleton_self _)
      omega
    · obtain rfl := List.mem_singleton.mp hend
      omega

/-- A complex selector matches the first element of a path exactly if its compound selectors,
outermost first, match at increasing depths of the path, the last one at its end. -/
theorem Complex.accepts_iff (c : Complex) (p : Path) :
  Complex.accepts c p
    ↔ c ≠ [] ∧ p ≠ [] ∧ ∃ depths : List Nat, depths.Pairwise (· < ·)
      ∧ depths.getLast? = some (p.length - 1)
      ∧ List.Forall₂ (fun compound depth => Compound.accepts compound (p.upTo depth)) c depths
  := by
  delta Complex.accepts
  split
  · next last outer step above hc =>
    have hne : c ≠ [] := by
      rintro rfl
      cases hc
    have hstart : (last.accepts (step :: above) && climbs outer above) ↔
        ∃ depths, Ascent c.reverse (step :: above) (above.length :: depths) := by
      rw [hc, Bool.and_eq_true, climbs_iff]
      constructor
      · rintro ⟨hlast, depths, h⟩
        exact ⟨depths, h.start hlast⟩
      · rintro ⟨depths, h⟩
        have hlast := (List.forall₂_cons.mp h.accepts).1
        rw [Path.upTo_length] at hlast
        exact ⟨hlast, depths, h.tail⟩
    rw [hstart]
    constructor
    · rintro ⟨depths, h⟩
      have hend : (depths.reverse ++ [above.length]).getLast? = some above.length :=
        List.getLast?_concat
      rw [← List.reverse_reverse (above.length :: depths), List.reverse_cons,
        ascent_reverse_iff (List.cons_ne_nil step above) hend] at h
      exact ⟨hne, List.cons_ne_nil step above, _, h.1, hend, h.2⟩
    · rintro ⟨-, hp, depths, hincreasing, hend, haccepts⟩
      have h := (ascent_reverse_iff hp hend).mpr ⟨hincreasing, haccepts⟩
      obtain ⟨init, rfl⟩ := List.getLast?_eq_some_iff.mp hend
      rw [List.reverse_append] at h
      exact ⟨_, h⟩
  · next hnone =>
    constructor
    · nofun
    · rintro ⟨hc, hp, -⟩
      obtain ⟨last, outer, hreverse⟩ := List.exists_cons_of_ne_nil (List.reverse_ne_nil_iff.mpr hc)
      obtain ⟨step, above, rfl⟩ := List.exists_cons_of_ne_nil hp
      exact absurd rfl (hnone last outer step above hreverse)

end Selector

end Hypertext
