import Hypertext.Literal.Items
import Hypertext.Proofs.Literal.Canonical

/-!
# Ways to give children

The children of an element may be given one by one or as a list, and a list of children may also be
read on its own, without an element around it.  Each of these readings takes the literals in
`listed` from the left to the right, so two of them agree where they take the same literals:
`toElement_loose_eq_listed` compares children one by one with a list of them, and
`toNodes_list_eq_toElement` a list on its own with the same list after a tag.
-/

namespace Hypertext.Literal

/-! ### Children one by one and as a list -/

/-- A list that starts with a tag is a single child. -/
theorem listed_of_startsWithTag {items : List Literal} (h : startsWithTag items = true) :
  listed [.list items] = [.list items]
  := by
  rw [listed, if_pos h]

/-- A list that does not start with a tag is the list of the children. -/
theorem listed_of_not_startsWithTag {items : List Literal} (h : startsWithTag items = false) :
  listed [.list items] = items
  := by
  rw [listed, h]
  rfl

/-- Literals are taken as they are, unless a single list of children is opened. -/
theorem listed_eq_self {content : List Literal}
    (h : ∀ items, content = [.list items] → startsWithTag items = true) :
  listed content = content
  := by
  rcases content with _ | ⟨first, _ | ⟨second, rest⟩⟩
  · rfl
  · cases first with
    | list items => apply listed_of_startsWithTag (h items rfl)
    | _ => rfl
  · cases first <;> rfl

/-- The children of what a list describes are read from its literals of children. -/
theorem childrenFrom_of_toElement {first : Literal} {rest : List Literal} {root : Element}
    (h : toElement (.list (first :: rest)) = .ok root) :
  childrenFrom 0 (childItems rest) = .ok root.children
  := by
  rw [toElement, elementOfItems_cons] at h
  cases hname : first.tagName? with
  | none =>
    rw [hname] at h
    cases h
  | some name =>
    rw [hname] at h
    obtain ⟨attributes, -, hrest⟩ := eq_ok_of_bind h
    obtain ⟨children, hchildren, hpure⟩ := eq_ok_of_bind hrest
    obtain rfl := Except.ok.inj hpure
    apply hchildren

/-- Literals that are not read as children when a tag is the first of them. -/
theorem childrenFrom_ne_ok_of_startsWithTag {ls : List Literal} (h : startsWithTag ls = true)
    (place : Nat) (ns : List Node) :
  childrenFrom place ls ≠ .ok ns
  := by
  rcases ls with _ | ⟨first, rest⟩
  · cases h
  · cases first with
    | tag name => nofun
    | _ => cases h

/-- A list that does not start with a tag is not read as the single child that it describes: the
first literal of it is a text then. -/
theorem childrenFrom_ne_of_elementOfItems {items : List Literal} {e : Element}
    (h : startsWithTag items = false) (he : elementOfItems items = .ok e) :
  childrenFrom 0 items ≠ .ok [.element e]
  := by
  intro hread
  rcases items with _ | ⟨first, rest⟩
  · cases hread
  · cases first with
    | tag name => cases h
    | str name =>
      rw [childrenFrom] at hread
      obtain ⟨n, hn, hrest⟩ := eq_ok_of_bind hread
      obtain ⟨ns, -, hpure⟩ := eq_ok_of_bind hrest
      cases hn
      cases hpure
    | _ => cases he

/-- Children that stand one by one after the attributes are read as the list of them is, with the
same error if there is one.  This is so unless the first of them is a tag, since the list then
describes an element, or unless the only one is a list that does not start with a tag, since it is
then the list of children itself; and in these two cases the readings never give the same element.
-/
theorem toElement_loose_eq_listed (first : Literal) (pairs : List (String × Literal))
    (cs : List Literal) :
  (startsWithTag cs = false → (∀ items, cs = [.list items] → startsWithTag items = true) →
      toElement (.list (first :: .map pairs :: cs)) = toElement (.list [first, .map pairs, .list cs]))
    ∧ (startsWithTag cs = true ∨ (∃ items, cs = [.list items] ∧ startsWithTag items = false) →
      ∀ root, toElement (.list (first :: .map pairs :: cs)) = .ok root →
        toElement (.list [first, .map pairs, .list cs]) ≠ .ok root)
  := by
  constructor
  · intro htag hlist
    have hitems : childItems (.map pairs :: cs) = childItems [.map pairs, .list cs] :=
      (listed_eq_self hlist).trans (listed_of_not_startsWithTag htag).symm
    rw [toElement, toElement, elementOfItems_cons, elementOfItems_cons, hitems]
    rfl
  · intro hcases root hloose hlisted
    have hone : childrenFrom 0 (listed cs) = .ok root.children :=
      childrenFrom_of_toElement hloose
    have hwhole : childrenFrom 0 (listed [.list cs]) = .ok root.children :=
      childrenFrom_of_toElement hlisted
    rcases hcases with htag | ⟨items, rfl, htag⟩
    · have hself : listed cs = cs := by
        apply listed_eq_self
        rintro items rfl
        cases htag
      rw [hself] at hone
      exact childrenFrom_ne_ok_of_startsWithTag htag 0 root.children hone
    · rw [listed_of_not_startsWithTag htag] at hone
      rw [listed_of_not_startsWithTag rfl, childrenFrom, child] at hwhole
      obtain ⟨n, hn, hpure⟩ := eq_ok_of_bind hwhole
      obtain ⟨e, he, hn'⟩ := eq_ok_of_bind hn
      obtain rfl := Except.ok.inj hn'
      rw [← Except.ok.inj hpure] at hone
      exact childrenFrom_ne_of_elementOfItems htag he hone

/-- A paragraph with loose children is read as with a list of them, unless the only child is a list.
-/
theorem toElement_loose_eq_listed_paragraph :
  let pairs : List (String × Literal) := [("id", .str "y")]
  let cs : List Literal := [.str "x", .list [.tag "b"]]
  let nested : List Literal := [.list [.str "x"]]
  let root : Element := ⟨"p", .ofList [("id", "y")], [.text "x", .element (.ofTag "b")]⟩
  let single : Element := ⟨"p", .ofList [("id", "y")], [.text "x"]⟩
  startsWithTag cs = false
    ∧ (∀ items, cs = [.list items] → startsWithTag items = true)
    ∧ toElement (.list (.tag "p" :: .map pairs :: cs)) = .ok root
    ∧ toElement (.list [.tag "p", .map pairs, .list cs]) = .ok root
    ∧ (∃ items, nested = [.list items] ∧ startsWithTag items = false)
    ∧ toElement (.list (.tag "p" :: .map pairs :: nested)) = .ok single
    ∧ toElement (.list [.tag "p", .map pairs, .list nested]) ≠ .ok single
  := by
  intro pairs cs nested root single
  have htag : startsWithTag cs = false := rfl
  have hlist : ∀ items, cs = [.list items] → startsWithTag items = true := by
    intro items hitems
    have hlength : cs.length = 1 := congrArg List.length hitems
    cases hlength
  have hroot : toElement (.list (.tag "p" :: .map pairs :: cs)) = .ok root := rfl
  have hnested : ∃ items, nested = [.list items] ∧ startsWithTag items = false :=
    ⟨[.str "x"], rfl, rfl⟩
  have hsingle : toElement (.list (.tag "p" :: .map pairs :: nested)) = .ok single := rfl
  obtain ⟨hsame, -⟩ := toElement_loose_eq_listed (.tag "p") pairs cs
  obtain ⟨-, hother⟩ := toElement_loose_eq_listed (.tag "p") pairs nested
  exact ⟨htag, hlist, hroot, (hsame htag hlist).symm.trans hroot, hnested, hsingle,
    hother (.inr hnested) single hsingle⟩

/-! ### Lists of children on their own -/

/-- A list on its own is read as it is among children. -/
theorem toNodes_list (items : List Literal) :
  toNodes (.list items) = childrenFrom 0 (listed [.list items])
  := childrenOfContent_eq [.list items]

/-- A list after a tag is read as an element with what the list is read as for its children. -/
theorem toElement_tag_list (name : String) (items : List Literal) :
  toElement (.list [.tag name, .list items]) = (toNodes (.list items)).map (⟨name, .empty, ·⟩)
  := by
  rw [toNodes_list, toElement, elementOfItems_cons]
  rfl

/-- A list that starts with a tag is read as the element that it describes. -/
theorem toNodes_of_startsWithTag {items : List Literal} (h : startsWithTag items = true) :
  toNodes (.list items) = (toElement (.list items)).map ([.element ·])
  := by
  rw [toNodes, if_pos h]
  rfl

/-- The canonical literals of nodes are read back. -/
theorem toNodes_ofChildren (ns : List Node) :
  toNodes (.list (ofChildren ns)) = .ok ns
  := childrenOfContent_of_describes (forall₂_describes_ofChildren ns)

/-- A list of literals is read as nodes just as the same list after a tag is read as an element with
these nodes for its children and without attributes, and with the same error.  A list that starts
with a tag is read as the element that it describes, and also with the same error; and the canonical
literals of children are read as these children. -/
theorem toNodes_list_eq_toElement :
  (∀ name items,
      (∀ ns, toNodes (.list items) = .ok ns
        ↔ toElement (.list [.tag name, .list items]) = .ok ⟨name, .empty, ns⟩)
      ∧ ∀ e, toNodes (.list items) = .error e
        ↔ toElement (.list [.tag name, .list items]) = .error e)
    ∧ (∀ items, startsWithTag items = true →
      (∀ ns, toNodes (.list items) = .ok ns
        ↔ ∃ root, toElement (.list items) = .ok root ∧ ns = [.element root])
      ∧ ∀ e, toNodes (.list items) = .error e ↔ toElement (.list items) = .error e)
    ∧ ∀ root : Element, toNodes (.list (ofChildren root.children)) = .ok root.children
  := by
  refine ⟨?_, ?_, ?_⟩
  · intro name items
    rw [toElement_tag_list]
    cases toNodes (.list items) with
    | ok ns => simp [Except.map]
    | error e => simp [Except.map]
  · intro items htag
    rw [toNodes_of_startsWithTag htag]
    cases toElement (.list items) with
    | ok root => simp [Except.map, eq_comm]
    | error e => simp [Except.map]
  · intro root
    apply toNodes_ofChildren

end Hypertext.Literal
