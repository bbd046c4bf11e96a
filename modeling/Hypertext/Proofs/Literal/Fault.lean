import Hypertext.Literal.Fault
import Hypertext.Proofs.Reader

/-!
# The first fault of a literal

Reading a literal as an element fails if and only if one of the values in it does not fit its role,
and the error is that of the first of these in the order of `Literal.values`:
`toElement_eq_error_iff`.  The proof follows the functions that read a literal.  `Judges` relates
what such a function gives to the values it reads, and where one reading comes after another,
`judges_bind` puts their values one after the other.
-/

namespace Hypertext.Literal

/-! ### Checks of values -/

/-- The error of the first value that does not fit its role. -/
def firstFault? (vs : List (Role × Literal)) : Option FormatError :=
  vs.findSome? fun v => v.1.fault? v.2

/-- The first fault is the one of a value before which there is none. -/
theorem firstFault?_eq_some_iff {vs : List (Role × Literal)} {e : FormatError} :
  firstFault? vs = some e ↔ ∃ front role got back, vs = front ++ (role, got) :: back
    ∧ role.fault? got = some e ∧ ∀ v ∈ front, v.1.fault? v.2 = none
  := by
  rw [firstFault?, List.findSome?_eq_some_iff]
  constructor
  · rintro ⟨front, ⟨role, got⟩, back, h⟩
    exact ⟨front, role, got, back, h⟩
  · rintro ⟨front, role, got, back, h⟩
    exact ⟨front, (role, got), back, h⟩

/-- There is no first fault if no value has one. -/
theorem firstFault?_eq_none_iff {vs : List (Role × Literal)} :
  firstFault? vs = none ↔ ∀ v ∈ vs, v.1.fault? v.2 = none
  := List.findSome?_eq_none_iff

/-- What is read from values fails with the error of the first one that does not fit, if there is
one. -/
def Judges {α : Type} (vs : List (Role × Literal)) (x : Except FormatError α) : Prop :=
  ∀ e, x = .error e ↔ firstFault? vs = some e

section

variable {α β : Type} {vs ws : List (Role × Literal)} {x : Except FormatError α}

/-- Where no value has a fault, success is right. -/
theorem judges_pure (h : firstFault? vs = none) (a : α) :
  Judges vs (.ok a)
  := by
  intro e
  rw [h]
  exact ⟨nofun, nofun⟩

/-- Where a value has a fault, the error of the first one is right. -/
theorem judges_error {e : FormatError} (h : firstFault? vs = some e) :
  Judges vs (.error e : Except FormatError α)
  := by
  intro e'
  rw [h, Except.error.injEq, Option.some.injEq]

/-- Where success is right no value has a fault. -/
theorem Judges.firstFault?_of_ok {a : α} (h : Judges vs (.ok a)) :
  firstFault? vs = none
  := by
  cases hfirst : firstFault? vs with
  | none => rfl
  | some e => cases (h e).mpr hfirst

/-- The values of what comes second are only looked at if those of what comes first all fit. -/
theorem judges_bind {f : α → Except FormatError β} (hx : Judges vs x) (hf : ∀ a, Judges ws (f a)) :
  Judges (vs ++ ws) (x >>= f)
  := by
  intro e
  rw [firstFault?, List.findSome?_append, ← firstFault?, ← firstFault?]
  cases x with
  | error e' =>
    rw [(hx e').mp rfl, Option.some_or, Option.some.injEq]
    exact Except.error.injEq e' e ▸ Iff.rfl
  | ok a =>
    rw [hx.firstFault?_of_ok, Option.none_or]
    apply hf a

/-- Changing the value of a check does not change when it fails. -/
theorem judges_map (f : α → β) (hx : Judges vs x) :
  Judges vs (x >>= fun a => pure (f a))
  := by
  rw [← List.append_nil vs]
  apply judges_bind hx
  intro a
  apply judges_pure rfl

/-- A value that fits comes before others without changing what they give. -/
theorem Judges.cons {role : Role} {got : Literal} (h : role.fault? got = none) (hx : Judges vs x) :
  Judges ((role, got) :: vs) x
  := by
  intro e
  rw [hx e, firstFault?, firstFault?, List.findSome?_cons, h]

end

/-! ### Tags and attributes -/

/-- The value of an attribute fails with its own fault. -/
theorem judges_attributePair (p : String × Literal) :
  Judges [(.attribute p.1, p.2)] (attributePair p)
  := by
  obtain ⟨name, got⟩ := p
  cases got with
  | map | list | element | object => apply judges_error rfl
  | _ => apply judges_pure rfl

/-- Attributes fail with the first fault of their values. -/
theorem judges_toAttributes (pairs : List (String × Literal)) :
  Judges (pairs.map fun p => (.attribute p.1, p.2)) (toAttributes pairs)
  := by
  apply judges_map
  induction pairs with
  | nil => apply judges_pure rfl
  | cons p pairs ih =>
    rw [List.mapM_cons]
    apply judges_bind (judges_attributePair p)
    intro pair
    apply judges_map _ ih

/-- The tag of a description comes before all else in it. -/
theorem judges_tagName (first : Literal) {α : Type} {f : String → Except FormatError α}
    {vs : List (Role × Literal)} (hf : ∀ name, Judges vs (f name)) :
  Judges ((.tag, first) :: vs)
    (match first.tagName? with
    | none => .error (.noTag first)
    | some name => f name)
  := by
  cases first with
  | tag name => apply Judges.cons rfl (hf name)
  | str name => apply Judges.cons rfl (hf name)
  | _ => apply judges_error rfl

/-! ### Elements -/

/-- Every reading fails at the first value that does not fit: that of a description, that of
children and that of a child, which is itself the first of its values. -/
theorem judges_descriptions :
  (∀ items, Judges (itemValues items) (elementOfItems items))
    ∧ (∀ place ls, Judges (childrenValues place ls) (childrenFrom place ls))
    ∧ ∀ l place, Judges ((.child place, l) :: valuesWithin l) (child place l)
  := by
  apply itemValues.mutual_induct
  case case1 =>
    rw [itemValues, elementOfItems]
    apply judges_error rfl
  case case2 =>
    intro first rest ih
    rw [itemValues, elementOfItems_cons]
    apply Judges.cons rfl
    apply judges_tagName
    intro name
    apply judges_bind (judges_toAttributes _)
    intro attributes
    apply judges_map _ ih
  case case3 =>
    intro place
    rw [childrenValues, childrenFrom]
    apply judges_pure rfl
  case case4 =>
    intro place first rest ihfirst ihrest
    rw [childrenValues, childrenFrom, ← List.cons_append]
    apply judges_bind (ihfirst place)
    intro n
    apply judges_map _ ihrest
  case case5 =>
    intro items ih place
    rw [valuesWithin, child]
    apply Judges.cons rfl
    apply judges_map _ ih
  case case6 =>
    intro l hlist place
    rw [valuesWithin_of_ne_list hlist]
    cases l with
    | list items => cases hlist items rfl
    | str | text | element | object => apply judges_pure rfl
    | _ => apply judges_error rfl

/-- Reading an element fails with the first fault of the values in it. -/
theorem judges_toElement (l : Literal) :
  Judges l.values l.toElement
  := by
  by_cases hlist : ∃ items, l = .list items
  · obtain ⟨items, rfl⟩ := hlist
    rw [values, valuesWithin]
    apply Judges.cons rfl (judges_descriptions.1 items)
  · rw [values, valuesWithin_of_ne_list fun items heq => hlist ⟨items, heq⟩]
    cases l with
    | list items => cases hlist ⟨items, rfl⟩
    | element e => apply judges_pure rfl
    | object asNode =>
      cases asNode with
      | element e => apply judges_pure rfl
      | text content => apply judges_error rfl
    | _ => apply judges_error rfl

/-! ### Places of children -/

/-- The values of children are each child, at its place, and the values in it. -/
theorem childrenValues_eq (place : Nat) (ls : List Literal) :
  childrenValues place ls
    = (ls.zipIdx place).flatMap fun p => (.child p.2, p.1) :: valuesWithin p.1
  := by
  induction ls generalizing place with
  | nil => rw [childrenValues, List.zipIdx_nil, List.flatMap_nil]
  | cons l ls ih => rw [childrenValues, List.zipIdx_cons, List.flatMap_cons, ih, List.cons_append]

/-- A value of children is one of them with its place, or it is in one of them. -/
theorem mem_childrenValues {v : Role × Literal} {ls : List Literal} :
  v ∈ childrenValues 0 ls
    ↔ (∃ place l, ls[place]? = some l ∧ v = (.child place, l)) ∨ ∃ l ∈ ls, v ∈ valuesWithin l
  := by
  rw [childrenValues_eq, List.mem_flatMap]
  constructor
  · rintro ⟨⟨l, place⟩, hmem, hv⟩
    have hplace := List.mk_mem_zipIdx_iff_getElem?.mp hmem
    rcases List.mem_cons.mp hv with rfl | hwithin
    · exact .inl ⟨place, l, hplace, rfl⟩
    · exact .inr ⟨l, List.mem_of_getElem? hplace, hwithin⟩
  · rintro (⟨place, l, hplace, rfl⟩ | ⟨l, hl, hwithin⟩)
    · use (l, place), List.mk_mem_zipIdx_iff_getElem?.mpr hplace
      apply List.mem_cons_self
    · obtain ⟨place, hplace⟩ := List.mem_iff_getElem?.mp hl
      use (l, place), List.mk_mem_zipIdx_iff_getElem?.mpr hplace
      apply List.mem_cons_of_mem _ hwithin

/-- Values are read as children at a place if and only if they stand at that place among the
children of a list that describes an element. -/
def Placed (vs : List (Role × Literal)) : Prop :=
  ∀ place got, (.child place, got) ∈ vs
    ↔ ∃ first rest, (.description, .list (first :: rest)) ∈ vs ∧ (childItems rest)[place]? = some got

/-- The children in a list are at the places that they have there, if this is so within each. -/
theorem placed_itemValues_cons {first : Literal} {rest : List Literal}
    (h : ∀ l ∈ childItems rest, Placed (valuesWithin l)) :
  Placed (itemValues (first :: rest))
  := by
  have hdescription (l : Literal) : (.description, l) ∈ itemValues (first :: rest)
      ↔ l = .list (first :: rest)
        ∨ ∃ l' ∈ childItems rest, (.description, l) ∈ valuesWithin l' := by
    simp [itemValues, mem_childrenValues]
  intro place got
  have hchild : (.child place, got) ∈ itemValues (first :: rest)
      ↔ (childItems rest)[place]? = some got
        ∨ ∃ l ∈ childItems rest, (.child place, got) ∈ valuesWithin l := by
    simp [itemValues, mem_childrenValues]
  rw [hchild]
  constructor
  · rintro (hplace | ⟨l, hl, hwithin⟩)
    · use first, rest, (hdescription _).mpr (.inl rfl)
    · obtain ⟨first', rest', hlist, hplace⟩ := (h l hl place got).mp hwithin
      use first', rest', (hdescription _).mpr (.inr ⟨l, hl, hlist⟩)
  · rintro ⟨first', rest', hlist, hplace⟩
    rcases (hdescription _).mp hlist with heq | ⟨l, hl, hwithin⟩
    · cases heq
      exact .inl hplace
    · exact .inr ⟨l, hl, (h l hl place got).mpr ⟨first', rest', hwithin, hplace⟩⟩

/-- A value that is no child and no description does not change where the children are. -/
theorem Placed.cons {role : Role} {l : Literal} {vs : List (Role × Literal)} (h : Placed vs)
    (hchild : ∀ place, role ≠ .child place) (hdescription : role ≠ .description) :
  Placed ((role, l) :: vs)
  := by
  intro place got
  simp only [List.mem_cons, Prod.mk.injEq, (hchild place).symm, hdescription.symm, false_and,
    false_or]
  apply h

theorem placed_descriptions :
  (∀ items, Placed (itemValues items)) ∧ (∀ (_ : Nat) (ls : List Literal), ∀ l ∈ ls, Placed (valuesWithin l))
    ∧ ∀ l, Placed (valuesWithin l)
  := by
  have hnil : Placed [] := by
    intro place got
    simp
  apply itemValues.mutual_induct
  case case1 =>
    intro place got
    simp [itemValues]
  case case2 =>
    intro first rest ih
    apply placed_itemValues_cons ih
  case case3 =>
    rintro place l ⟨⟩
  case case4 =>
    intro place first rest ihfirst ihrest
    exact List.forall_mem_cons.mpr ⟨ihfirst, ihrest⟩
  case case5 =>
    intro items ih
    rw [valuesWithin]
    apply ih
  case case6 =>
    intro l hlist
    rw [valuesWithin_of_ne_list hlist]
    apply hnil

/-- In every literal the children are at the places that they have there. -/
theorem placed_values (l : Literal) :
  Placed l.values
  := by
  apply Placed.cons
  · apply placed_descriptions.2.2
  · nofun
  · nofun

/-! ### The first fault -/

/-- A literal is read as an element unless a value in it does not fit its role, and then the error
is that of the first such value.  A value that is read as a child stands at the place that its error
gives among the children of a list that describes an element, however these are given. -/
theorem toElement_eq_error_iff (l : Literal) :
  (∀ e, l.toElement = .error e ↔ ∃ front role got back, l.values = front ++ (role, got) :: back
      ∧ role.fault? got = some e ∧ ∀ v ∈ front, v.1.fault? v.2 = none)
    ∧ ((∃ root, l.toElement = .ok root) ↔ ∀ v ∈ l.values, v.1.fault? v.2 = none)
    ∧ ∀ place got,
      ((.child place, got) ∈ l.values ↔ ∃ first rest, (.description, .list (first :: rest)) ∈ l.values
        ∧ (childItems rest)[place]? = some got)
      ∧ ∀ e, Role.fault? (.child place) got = some e →
        e.message = "invalid value in node literal at position " ++ toString place ++ ": "
          ++ got.inspect ++ " is not a string, a node or a node literal"
  := by
  refine ⟨?_, ?_, ?_⟩
  · intro e
    rw [judges_toElement l e]
    apply firstFault?_eq_some_iff
  · rw [← firstFault?_eq_none_iff]
    constructor
    · rintro ⟨root, hroot⟩
      apply Judges.firstFault?_of_ok
      rw [← hroot]
      apply judges_toElement l
    · intro hnone
      cases hread : l.toElement with
      | ok root => exact ⟨root, rfl⟩
      | error e =>
        have hsome := (judges_toElement l e).mp hread
        rw [hnone] at hsome
        cases hsome
  · intro place got
    constructor
    · apply placed_values l
    · intro e he
      cases got with
      | null | bool | int | number | tag | map =>
        cases he
        rfl
      | _ => cases he

end Hypertext.Literal
