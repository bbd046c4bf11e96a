import Hypertext.Pairs

/-!
# Attributes

`Attributes` is a finite map from names to values that remembers the order in which its names
came in: `insert` keeps the place of a name that is already there and puts a new one at the
end.  A map is observed through `get?`, given by `get?_insert` and `get?_erase`, and through
`names`, given by `names_insert` and `names_erase`.  `remove` erases a name and gives back its
value, as `remove_eq` says.  The order is written out but it is not part of the value: `==` holds
between maps with the same pairs.
-/

namespace Hypertext

/-- Names with values, each name once. -/
@[ext]
structure Attributes where
  pairs : List (String × String)
  nodup : (pairs.map Prod.fst).Nodup := by simp

namespace Attributes

instance : Inhabited Attributes := ⟨⟨[], by simp⟩⟩

/-- The map without names. -/
def empty : Attributes := ⟨[], by simp⟩

/-- The names, in the order in which they came in. -/
def names (a : Attributes) : List String := a.pairs.map Prod.fst

/-- The number of names. -/
def size (a : Attributes) : Nat := a.pairs.length

/-- Whether there is no name. -/
def isEmpty (a : Attributes) : Bool := a.pairs.isEmpty

/-- The value of a name. -/
def get? (a : Attributes) (name : String) : Option String := a.pairs.lookup name

/-- Whether a name has a value. -/
def contains (a : Attributes) (name : String) : Bool := (a.get? name).isSome

/-- The pairs with the value of `name` set, at the place of `name` or else at the end. -/
def setPair (name value : String) : List (String × String) → List (String × String)
  | [] => [(name, value)]
  | p :: ps => if p.1 = name then (name, value) :: ps else p :: setPair name value ps

/-- Setting a value adds its name at the end if it was not there. -/
theorem map_fst_setPair (name value : String) (ps : List (String × String)) :
  (setPair name value ps).map Prod.fst
    = if name ∈ ps.map Prod.fst then ps.map Prod.fst else ps.map Prod.fst ++ [name]
  := by
  induction ps with
  | nil => rfl
  | cons p ps ih =>
    simp only [setPair, List.map_cons, List.mem_cons]
    by_cases h : p.1 = name
    · simp [h]
    · have h' : name ≠ p.1 := fun e => h e.symm
      simp only [h, h', if_false, List.map_cons, ih, false_or]
      split <;> rfl

/-- Setting a value keeps each name once. -/
theorem nodup_setPair (name value : String) {ps : List (String × String)}
    (h : (ps.map Prod.fst).Nodup) :
  ((setPair name value ps).map Prod.fst).Nodup
  := by
  rw [map_fst_setPair]
  split
  · exact h
  · next hn => grind [List.nodup_append]

/-- The map with the value of `name` set. -/
def insert (a : Attributes) (name value : String) : Attributes :=
  ⟨setPair name value a.pairs, nodup_setPair name value a.nodup⟩

/-- The map without `name`. -/
def erase (a : Attributes) (name : String) : Attributes :=
  ⟨a.pairs.filter (·.1 ≠ name), a.nodup.sublist (List.filter_sublist.map _)⟩

/-- The value of the first pair of `name`, if there is one, and the pairs without that pair. -/
def takePair (name : String) :
    List (String × String) → Option String × List (String × String)
  | [] => (none, [])
  | p :: ps =>
    if p.1 = name then (some p.2, ps)
    else ((takePair name ps).1, p :: (takePair name ps).2)

/-- If each name is there once, the value of a name is taken with all pairs of that name. -/
theorem takePair_eq {name : String} {ps : List (String × String)} (h : (ps.map Prod.fst).Nodup) :
  takePair name ps = (ps.lookup name, ps.filter (·.1 ≠ name))
  := by
  induction ps with
  | nil => rfl
  | cons p ps ih =>
    obtain ⟨key, value⟩ := p
    rw [List.map_cons, List.nodup_cons] at h
    obtain ⟨hkey, hnodup⟩ := h
    by_cases hname : key = name
    · have hothers : ps.filter (·.1 ≠ name) = ps := by
        apply List.filter_eq_self.mpr
        intro q hq
        apply decide_eq_true
        intro hsame
        apply hkey
        rw [hname, ← hsame]
        apply List.mem_map_of_mem hq
      rw [takePair, if_pos hname, List.filter_cons_of_neg (by simpa using hname), hothers]
      simp [hname]
    · have hbeq : (name == key) = false := beq_false_of_ne (Ne.symm hname)
      simp [takePair, List.lookup_cons, hname, hbeq, ih hnodup]

/-- Taking out a pair keeps each name once. -/
theorem nodup_takePair (name : String) {ps : List (String × String)}
    (h : (ps.map Prod.fst).Nodup) :
  ((takePair name ps).2.map Prod.fst).Nodup
  := by
  rw [takePair_eq h]
  apply h.sublist (List.filter_sublist.map _)

/-- The value that `name` has, if it has one, and the map without `name`. -/
def remove (a : Attributes) (name : String) : Option String × Attributes :=
  ((takePair name a.pairs).1, ⟨(takePair name a.pairs).2, nodup_takePair name a.nodup⟩)

/-- Removing a name gives its value and erases it: no other pair has that name. -/
theorem remove_eq (a : Attributes) (name : String) :
  a.remove name = (a.get? name, a.erase name)
  := by
  have hpairs : takePair name a.pairs = (a.get? name, (a.erase name).pairs) := takePair_eq a.nodup
  apply Prod.ext
  · apply congrArg Prod.fst hpairs
  · apply Attributes.ext
    apply congrArg Prod.snd hpairs

/-- The map of a list of pairs, in which the last value of a name counts. -/
def ofList (ps : List (String × String)) : Attributes :=
  ps.foldl (fun a p => a.insert p.1 p.2) empty

/-- Two maps are equal when they hold the same pairs, in any order. -/
instance : BEq Attributes where
  beq a b := a.size == b.size && a.pairs.all fun p => b.get? p.1 == some p.2

/-! ### Names -/

/-- A name with a new value keeps its place, and a new name comes to the end. -/
theorem names_insert (a : Attributes) (name value : String) :
  (a.insert name value).names = if name ∈ a.names then a.names else a.names ++ [name]
  := map_fst_setPair name value a.pairs

/-- Erasing a name keeps the order of the others. -/
theorem names_erase (a : Attributes) (name : String) :
  (a.erase name).names = a.names.filter (· ≠ name)
  := by
  simp [names, erase, List.filter_map, Function.comp_def]

/-! ### Lists of pairs -/

/-- The value of a new name comes to the end. -/
theorem setPair_of_not_mem {name : String} (value : String) {ps : List (String × String)}
    (h : name ∉ ps.map Prod.fst) :
  setPair name value ps = ps ++ [(name, value)]
  := by
  induction ps with
  | nil => rfl
  | cons p ps ih =>
    rw [List.map_cons, List.mem_cons, not_or] at h
    rw [setPair, if_neg (Ne.symm h.1), ih h.2, List.cons_append]

/-- Pairs with new names are put at the end, in their order. -/
theorem pairs_foldl_insert (a : Attributes) {ps : List (String × String)}
    (h : ((a.pairs ++ ps).map Prod.fst).Nodup) :
  (ps.foldl (fun a p => a.insert p.1 p.2) a).pairs = a.pairs ++ ps
  := by
  induction ps generalizing a with
  | nil => simp
  | cons p ps ih =>
    have hnew : p.1 ∉ a.pairs.map Prod.fst := by
      intro hmem
      rw [List.map_append, List.nodup_append] at h
      exact h.2.2 p.1 hmem p.1 (.head _) rfl
    have hinsert : (a.insert p.1 p.2).pairs = a.pairs ++ [p] := setPair_of_not_mem p.2 hnew
    have happend : (a.insert p.1 p.2).pairs ++ ps = a.pairs ++ p :: ps := by
      rw [hinsert, List.append_assoc, List.singleton_append]
    rw [List.foldl_cons, ih _ (happend ▸ h), happend]

/-- A map is that of its pairs. -/
theorem ofList_pairs (a : Attributes) :
  ofList a.pairs = a
  := Attributes.ext (pairs_foldl_insert empty a.nodup)

/-- Setting values one after the other adds their names. -/
theorem mem_names_foldl_insert (a : Attributes) (ps : List (String × String)) (name : String) :
  name ∈ (ps.foldl (fun a p => a.insert p.1 p.2) a).names
    ↔ name ∈ a.names ∨ name ∈ ps.map Prod.fst
  := by
  induction ps generalizing a with
  | nil => simp
  | cons p ps ih =>
    rw [List.foldl_cons, ih, names_insert, List.map_cons, List.mem_cons]
    grind

/-- The map of a list of pairs has the names of the pairs. -/
theorem mem_names_ofList (ps : List (String × String)) (name : String) :
  name ∈ (ofList ps).names ↔ name ∈ ps.map Prod.fst
  := by
  rw [ofList, mem_names_foldl_insert]
  simp [empty, names]

/-! ### Values -/

/-- Setting the value of a name changes no other value. -/
theorem lookup_setPair (name value other : String) (ps : List (String × String)) :
  (setPair name value ps).lookup other = if other = name then some value else ps.lookup other
  := by
  induction ps with
  | nil => grind [setPair]
  | cons p ps ih =>
    obtain ⟨key, old⟩ := p
    simp only [setPair]
    grind

/-- Setting a value changes the value of its name and of no other. -/
theorem get?_insert (a : Attributes) (name value other : String) :
  (a.insert name value).get? other = if other = name then some value else a.get? other
  := lookup_setPair name value other a.pairs

/-- Erasing takes the value of its name and of no other. -/
theorem get?_erase (a : Attributes) (name other : String) :
  (a.erase name).get? other = if other = name then none else a.get? other
  := lookup_filter_ne name other a.pairs

/-- A name has a value exactly when it is among the names. -/
theorem contains_iff_mem_names (a : Attributes) (name : String) :
  a.contains name ↔ name ∈ a.names
  := by
  simp only [contains, get?, names]
  induction a.pairs with
  | nil => simp
  | cons p ps ih => grind

/-- The names are those that have a value. -/
theorem mem_names_iff (a : Attributes) (name : String) :
  name ∈ a.names ↔ (a.get? name).isSome
  := (a.contains_iff_mem_names name).symm

/-! ### Repeated changes -/

/-- Of two values that are set for a name the second counts. -/
theorem setPair_setPair (name first second : String) (ps : List (String × String)) :
  setPair name second (setPair name first ps) = setPair name second ps
  := by
  induction ps with
  | nil => simp [setPair]
  | cons p ps ih =>
    by_cases h : p.1 = name
    · simp [setPair, h]
    · simp [setPair, h, ih]

/-- Of two values that are set for a name only the second counts. -/
theorem insert_insert (a : Attributes) (name first second : String) :
  (a.insert name first).insert name second = a.insert name second
  := Attributes.ext (setPair_setPair name first second a.pairs)

/-- Setting a value that is there already changes nothing. -/
theorem setPair_of_lookup {name value : String} {ps : List (String × String)}
    (h : ps.lookup name = some value) :
  setPair name value ps = ps
  := by
  induction ps with
  | nil => simp at h
  | cons p ps ih =>
    obtain ⟨key, old⟩ := p
    by_cases hkey : key = name
    · simp_all [setPair]
    · have hbeq : (name == key) = false := beq_false_of_ne (Ne.symm hkey)
      rw [List.lookup_cons, hbeq] at h
      simp [setPair, hkey, ih h]

/-- Setting a name to the value that it has changes nothing. -/
theorem insert_of_get? {a : Attributes} {name value : String} (h : a.get? name = some value) :
  a.insert name value = a
  := Attributes.ext (setPair_of_lookup h)

/-- Setting the value of a name changes nothing of the pairs of other names. -/
theorem filter_setPair (name value : String) (ps : List (String × String)) :
  (setPair name value ps).filter (·.1 ≠ name) = ps.filter (·.1 ≠ name)
  := by
  induction ps with
  | nil => simp [setPair]
  | cons p ps ih =>
    by_cases h : p.1 = name
    · simp [setPair, h]
    · simp_all [setPair]

/-- A value that is set and erased leaves nothing. -/
theorem erase_insert (a : Attributes) (name value : String) :
  (a.insert name value).erase name = a.erase name
  := Attributes.ext (filter_setPair name value a.pairs)

/-- Erasing a name once more changes nothing. -/
theorem erase_erase (a : Attributes) (name : String) :
  (a.erase name).erase name = a.erase name
  := by
  apply Attributes.ext
  simp [erase]

end Attributes

end Hypertext
