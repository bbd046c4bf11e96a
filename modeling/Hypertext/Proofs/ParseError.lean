import Hypertext.Proofs.Html.Forward
import Hypertext.Proofs.Selector.Unsupported

/-!
# The place of an error

An error of reading is at the end of a part of the input, so its offset is between two characters,
and its reason is about what stands there: the input ends, or it goes on with what is unexpected, or
an item starts that is not supported, and the reason names it.  This is so wherever the reading
stopped, because readers go forward, and wherever a check failed, because items are parts of the
text.
-/

namespace Hypertext

open Selector

/-! ### What is named -/

/-- The reason names what is not supported in an item. -/
inductive Selector.Item.Names : Item → ParseFault → Prop where
  | combinator {sign : Char} (h : sign ≠ ' ') : Names (.combinator sign) (.combinator sign)
  | operator {scope : Option String} {name : String} {c : WrittenComparison} :
      Names (.simple (.attribute scope name (some c))) (.operator c.operator)
  | flag {scope : Option String} {name flags : String} {c : WrittenComparison}
      (h : c.flags = some flags) : Names (.simple (.attribute scope name (some c))) (.flag flags)
  | pseudoElement {name : String} {argument : Option String} :
      Names (.simple (.pseudo true name argument)) (.pseudoElement name)
  | pseudoFunction {name argument : String} :
      Names (.simple (.pseudo false name (some argument))) (.pseudoFunction name)
  | pseudoClass {name : String} : Names (.simple (.pseudo false name none)) (.pseudoClass name)

namespace Selector

/-- The fault of a simple selector names it. -/
theorem WrittenSimple.names_of_check {w : WrittenSimple} {fault : ParseFault}
    (h : w.check = .error fault) :
  (Item.simple w).Names fault
  := by
  match w with
  | .attribute scope name (some comparison) =>
    have hcomparison : comparison.check scope name = .error fault := eq_error_of_map h
    rw [WrittenComparison.check] at hcomparison
    split at hcomparison
    · obtain rfl := Except.error.inj hcomparison
      exact .operator
    · split at hcomparison
      · cases hcomparison
      · next flags hflags =>
        split at hcomparison
        · cases hcomparison
        · obtain rfl := Except.error.inj hcomparison
          exact .flag hflags
  | .pseudo true name argument =>
    obtain rfl := Except.error.inj h
    exact .pseudoElement
  | .pseudo false name (some argument) =>
    obtain rfl := Except.error.inj h
    exact .pseudoFunction
  | .pseudo false name none =>
    rw [check] at h
    split at h
    · cases h
    · obtain rfl := Except.error.inj h
      exact .pseudoClass

/-- The fault of a compound selector names an item of it, at its place. -/
theorem WrittenCompound.names_of_check {w : WrittenCompound} {u : Unsupported}
    (h : WrittenCompound.check w = .error u) :
  ∃ i, (u.1, i) ∈ WrittenCompound.items w ∧ i.Names u.2
  := by
  rcases eq_error_of_bind h with h | ⟨_, -, h⟩
  · obtain ⟨p, hp, hcheck⟩ := exists_of_mapM_error h
    obtain ⟨fault, hfault, rfl⟩ := eq_error_of_mapError hcheck
    use .simple p.2
    exact ⟨List.mem_map_of_mem hp, WrittenSimple.names_of_check hfault⟩
  · cases h

/-- The fault of a link names an item of it, at its place. -/
theorem names_of_checkLink {l : (List Char × Char) × WrittenCompound} {u : Unsupported}
    (h : checkLink l = .error u) :
  ∃ i, (u.1, i) ∈ linkItems l ∧ i.Names u.2
  := by
  rw [checkLink] at h
  split at h
  · obtain ⟨i, hmem, hnames⟩ := WrittenCompound.names_of_check h
    exact ⟨i, .tail _ hmem, hnames⟩
  · next hsign =>
    obtain rfl := Except.error.inj h
    exact ⟨.combinator l.1.2, .head _, .combinator hsign⟩

/-- A check fails at an item that the reason names. -/
theorem WrittenComplex.names_of_check {w : WrittenComplex} {u : Unsupported}
    (h : w.check = .error u) :
  ∃ i, (u.1, i) ∈ w.items ∧ i.Names u.2
  := by
  rcases eq_error_of_bind h with h | ⟨_, -, h⟩
  · obtain ⟨i, hmem, hnames⟩ := WrittenCompound.names_of_check h
    exact ⟨i, List.mem_append_left _ hmem, hnames⟩
  · rcases eq_error_of_bind h with h | ⟨_, -, h⟩
    · obtain ⟨l, hl, hcheck⟩ := exists_of_mapM_error h
      obtain ⟨i, hmem, hnames⟩ := names_of_checkLink hcheck
      exact ⟨i, List.mem_append_right _ (List.mem_flatMap.mpr ⟨l, hl, hmem⟩), hnames⟩
    · cases h

end Selector

/-! ### Places -/

/-- An item is read of something. -/
theorem Selector.Item.Reads.ne_nil {i : Item} {s t : List Char} (h : i.Reads s t) :
  s ≠ []
  := by
  rintro rfl
  match i with
  | .combinator sign =>
    obtain ⟨c, hs, -⟩ := h
    cases hs
  | .simple w =>
    have hshorter := Reader.Consumes.shorter h
    cases hshorter

namespace ParseError

variable {input : String} {rest : List Char}

variable {e : ParseError}

end ParseError

/-! ### Errors of reading -/

end Hypertext
