/-!
# Lists of pairs

Two finite maps are kept as lists of pairs, one in the order in which its keys came in and the other
in the order of its keys.  What `List.lookup` gives of such a list depends on the pairs only, as
`mem_iff_lookup` says, if no key is in it twice.
-/

namespace Hypertext

section

variable {α β : Type} [DecidableEq α]

/-- Without the pairs of a key, that key has no value, and the others keep theirs. -/
theorem lookup_filter_ne (key other : α) (ps : List (α × β)) :
  (ps.filter (·.1 ≠ key)).lookup other = if other = key then none else ps.lookup other
  := by
  induction ps with
  | nil => simp
  | cons p ps ih =>
    obtain ⟨first, old⟩ := p
    grind

/-- A pair is in a list in which each key is once exactly if it has the value of its key. -/
theorem mem_iff_lookup {ps : List (α × β)} (h : (ps.map Prod.fst).Nodup) (key : α) (value : β) :
  (key, value) ∈ ps ↔ ps.lookup key = some value
  := by
  induction ps with
  | nil => simp
  | cons p ps ih =>
    obtain ⟨first, own⟩ := p
    rw [List.map_cons, List.nodup_cons] at h
    obtain ⟨hfirst, hnodup⟩ := h
    have hps := ih hnodup
    by_cases hkey : key = first
    · subst hkey
      have hnone : (key, value) ∉ ps := by
        intro hmem
        have hagain : key ∈ ps.map Prod.fst := List.mem_map_of_mem hmem
        exact hfirst hagain
      simp [hnone, eq_comm]
    · have hbeq : (key == first) = false := beq_false_of_ne hkey
      simp [List.lookup_cons, hkey, hbeq, hps]

end

end Hypertext
