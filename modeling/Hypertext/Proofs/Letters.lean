import Hypertext.Text.Blank
import Mathlib

/-!
# Lower case

`Char.toLower` changes the letters of ASCII only, so it keeps whatever is the same for all of them,
as `apply_toLower` says: that a character is blank is one such thing, and therefore lower case keeps
the words of a text apart, as `Text.words_map_toLower` says.

The lemmas of the library on the case of letters come with the whole of it only.  They are imported
here, and what else speaks of lower case takes them from here.
-/

namespace Hypertext

/-! ### Letters -/

/-- Lower case keeps what is no letter. -/
theorem toLower_of_not_isAlpha {c : Char} (h : ¬c.isAlpha) :
  c.toLower = c
  := by
  apply Char.toLower_eq_of_not_isUpper
  intro hupper
  apply h
  delta Char.isAlpha
  rw [hupper, Bool.true_or]

/-- Lower case keeps what is the same for all letters. -/
theorem apply_toLower {α : Type} {f : Char → α} {a : α} (h : ∀ c : Char, c.isAlpha → f c = a)
    (c : Char) :
  f c.toLower = f c
  := by
  by_cases hc : c.isAlpha
  · have hlower : c.toLower.isAlpha := (Char.isAlpha_toLower_eq_isAlpha c).trans hc
    rw [h c hc, h c.toLower hlower]
  · rw [toLower_of_not_isAlpha hc]

/-! ### Words -/

namespace Text

/-- A list is cut at the same places when what it is cut at is told from the changed elements. -/
theorem splitOnP_map {α β : Type} {f : α → β} {p : α → Bool} {q : β → Bool}
    (h : ∀ a, q (f a) = p a) (as : List α) :
  (as.map f).splitOnP q = (as.splitOnP p).map (List.map f)
  := by
  induction as with
  | nil => rfl
  | cons a as ih =>
    rw [List.map_cons, List.splitOnP_cons_eq_if_modifyHead, List.splitOnP_cons_eq_if_modifyHead, h,
      ih]
    split
    · rfl
    · cases as.splitOnP p <;> rfl

/-- No letter of ASCII is blank. -/
theorem not_isBlank_of_isAlpha {c : Char} (h : c.isAlpha) :
  isBlank c = false
  := by
  delta Char.isAlpha Char.isUpper Char.isLower at h
  simp only [Bool.or_eq_true, Bool.and_eq_true, decide_eq_true_eq, Char.reduceVal,
    UInt32.le_iff_toNat_le, UInt32.reduceToNat, ge_iff_le, Char.toNat_val] at h
  simp only [isBlank, blankRanges, List.any_cons, List.any_nil, Bool.or_false, Bool.or_eq_false_iff,
    Bool.and_eq_false_iff, decide_eq_false_iff_not]
  omega

/-- The words of a text in lower case are its words, each in lower case. -/
theorem words_map_toLower (cs : List Char) :
  words (cs.map Char.toLower) = (words cs).map (List.map Char.toLower)
  := by
  have hblank : ∀ c : Char, isBlank c.toLower = isBlank c :=
    apply_toLower fun _ => not_isBlank_of_isAlpha
  rw [words, splitOnP_map hblank, List.filter_map, words]
  congr 1
  apply List.filter_congr
  intro word _
  apply congrArg not List.isEmpty_map

end Text

end Hypertext
