import Hypertext.Proofs.Classes
import Hypertext.Proofs.Equality

/-!
# Merged attributes

Merging goes through the pairs of a map one after the other, each on the element that the pairs
before it left.  `Element.mergePair` is one such step, and it reads and writes nothing but the
attribute it names, so that what is under a name in the end is what the pair of that name makes of
the value that was there at first: `Element.attribute?_foldl_mergePair` says so.
-/

namespace Hypertext

namespace Element

/-- An element with one attribute added: words to a class list, any other value in place of the one
that is there. -/
def mergePair (e : Element) (p : String × String) : Element :=
  if p.1 = "class" then e.addClass p.2 else e.setAttribute p.1 p.2

/-- Attributes are merged one after the other. -/
theorem mergeAttributes_eq (e : Element) (a : Attributes) :
  e.mergeAttributes a = a.pairs.foldl mergePair e
  := rfl

section

variable {e e' : Element} {name : String} {p : String × String} {ps : List (String × String)}

/-! ### One attribute -/

/-- Elements that are the same but for the class list have the same other attributes. -/
theorem SameButClass.attribute? (h : e.SameButClass e') (hname : name ≠ "class") :
  e'.attribute? name = e.attribute? name
  := by
  have hget : (e'.attributes.erase "class").get? name = (e.attributes.erase "class").get? name := by
    rw [h.others]
  rwa [Attributes.get?_erase, Attributes.get?_erase, if_neg hname, if_neg hname] at hget

/-- The class list depends on the attribute only. -/
theorem classList_congr (h : e'.attribute? "class" = e.attribute? "class") :
  e'.classList = e.classList
  := by rw [classList, classList, h]

/-- Only the attributes of an element change. -/
theorem mergePair_eq_setAttributes (e : Element) (p : String × String) :
  e.mergePair p = e.setAttributes (e.mergePair p).attributes
  := by
  rw [mergePair]
  split
  · have h := e.sameButClass_addClass p.2
    rw [setAttributes, ← h.tag, ← h.children]
    exact (eta _).symm
  · rfl

/-- An attribute that is merged keeps its place, and a new one comes to the end. -/
theorem names_mergePair (e : Element) (p : String × String) :
  (e.mergePair p).attributes.names
    = if p.1 ∈ e.attributes.names then e.attributes.names else e.attributes.names ++ [p.1]
  := by
  rw [mergePair]
  split
  · next hclass =>
    rw [names_addClass, hclass]
    simp only [hasAttribute_iff_mem_names]
  · apply Attributes.names_insert

/-- Merging an attribute changes no other. -/
theorem attribute?_mergePair_of_ne (h : name ≠ p.1) (e : Element) :
  (e.mergePair p).attribute? name = e.attribute? name
  := by
  rw [mergePair]
  split
  · next hclass =>
    apply (e.sameButClass_addClass p.2).attribute?
    rwa [← hclass]
  · rw [attribute?_setAttribute, if_neg h]

/-- An attribute that is merged has the new value, unless it is the class list. -/
theorem attribute?_mergePair (h : p.1 ≠ "class") (e : Element) :
  (e.mergePair p).attribute? p.1 = some p.2
  := by
  rw [mergePair, if_neg h, attribute?_setAttribute, if_pos rfl]

/-! ### All attributes -/

/-- Merging attributes changes nothing but the attributes. -/
theorem foldl_mergePair_eq_setAttributes (e : Element) (ps : List (String × String)) :
  ps.foldl mergePair e = e.setAttributes (ps.foldl mergePair e).attributes
  := by
  induction ps generalizing e with
  | nil => exact e.eta.symm
  | cons p ps ih =>
    rw [List.foldl_cons, ih (e.mergePair p), mergePair_eq_setAttributes]
    rfl

/-- Names that are new come after the others, in their order. -/
theorem names_foldl_mergePair (h : (ps.map Prod.fst).Nodup) (e : Element) :
  (ps.foldl mergePair e).attributes.names
    = e.attributes.names ++ (ps.map Prod.fst).filter (· ∉ e.attributes.names)
  := by
  induction ps generalizing e with
  | nil => simp
  | cons p ps ih =>
    rw [List.map_cons, List.nodup_cons] at h
    obtain ⟨hp, hps⟩ := h
    rw [List.foldl_cons, ih hps, names_mergePair, List.map_cons]
    by_cases hmem : p.1 ∈ e.attributes.names
    · simp [hmem]
    · have hrest : (ps.map Prod.fst).filter (· ∉ e.attributes.names ++ [p.1])
          = (ps.map Prod.fst).filter (· ∉ e.attributes.names) := by
        apply List.filter_congr
        intro name hname
        have hne : name ≠ p.1 := by
          rintro rfl
          exact hp hname
        simp [hne]
      rw [if_neg hmem, hrest, List.filter_cons_of_pos (by simpa using hmem), List.append_assoc,
        List.singleton_append]

/-- An attribute that is not merged keeps its value. -/
theorem attribute?_foldl_mergePair_of_not_mem (h : name ∉ ps.map Prod.fst) (e : Element) :
  (ps.foldl mergePair e).attribute? name = e.attribute? name
  := by
  induction ps generalizing e with
  | nil => rfl
  | cons p ps ih =>
    rw [List.map_cons, List.mem_cons, not_or] at h
    rw [List.foldl_cons, ih h.2, attribute?_mergePair_of_ne h.1]

/-- What is under a name of a pair in the end is what the pair makes of the value that was there at
first. -/
theorem attribute?_foldl_mergePair (h : (ps.map Prod.fst).Nodup) (hp : p ∈ ps) (e : Element) :
  ∃ e' : Element, e'.attribute? p.1 = e.attribute? p.1
    ∧ (ps.foldl mergePair e).attribute? p.1 = (e'.mergePair p).attribute? p.1
  := by
  obtain ⟨before, after, rfl⟩ := List.append_of_mem hp
  rw [List.map_append, List.map_cons, List.nodup_append, List.nodup_cons] at h
  obtain ⟨-, ⟨hafter, -⟩, hbefore⟩ := h
  refine ⟨before.foldl mergePair e, ?_, ?_⟩
  · apply attribute?_foldl_mergePair_of_not_mem
    intro hmem
    exact hbefore p.1 hmem p.1 (.head _) rfl
  · rw [List.foldl_append, List.foldl_cons]
    apply attribute?_foldl_mergePair_of_not_mem hafter

/-- Pairs that change nothing one by one change nothing together. -/
theorem foldl_mergePair_eq_self (h : ∀ p ∈ ps, e.mergePair p = e) :
  ps.foldl mergePair e = e
  := by
  induction ps with
  | nil => rfl
  | cons p ps ih =>
    rw [List.foldl_cons, h p (.head _)]
    apply ih
    intro q hq
    apply h q (.tail _ hq)

/-! ### Maps -/

variable {a : Attributes} {value : String}

/-- The names that are new come to the end, in their order. -/
theorem names_mergeAttributes (e : Element) (a : Attributes) :
  (e.mergeAttributes a).attributes.names
    = e.attributes.names ++ a.names.filter (· ∉ e.attributes.names)
  := names_foldl_mergePair a.nodup e

/-- An attribute that is not in the map keeps its value. -/
theorem attribute?_mergeAttributes_of_get?_eq_none (h : a.get? name = none) (e : Element) :
  (e.mergeAttributes a).attribute? name = e.attribute? name
  := by
  apply attribute?_foldl_mergePair_of_not_mem
  change name ∉ a.names
  rw [Attributes.mem_names_iff, h]
  apply Bool.false_ne_true

/-- An attribute in the map has the value of the map, unless it is the class list. -/
theorem attribute?_mergeAttributes (hname : name ≠ "class") (h : a.get? name = some value)
    (e : Element) :
  (e.mergeAttributes a).attribute? name = some value
  := by
  have hp := (a.mem_pairs_iff name value).mpr h
  obtain ⟨e', -, hmerged⟩ := attribute?_foldl_mergePair a.nodup hp e
  rw [mergeAttributes_eq, hmerged]
  apply attribute?_mergePair hname

/-- The class list in the map is added to that of the element. -/
theorem classList_mergeAttributes (h : a.get? "class" = some value) (e : Element) :
  (e.mergeAttributes a).classList = e.classList ++ e.newClasses value
  := by
  have hp := (a.mem_pairs_iff "class" value).mpr h
  obtain ⟨e', hown, hmerged⟩ := attribute?_foldl_mergePair a.nodup hp e
  have hlist : e'.classList = e.classList := classList_congr hown
  rw [mergeAttributes_eq, classList_congr hmerged, mergePair, if_pos rfl, classList_addClass,
    newClasses, newClasses, hlist]

/-- An attribute in the map is there afterwards. -/
theorem hasAttribute_mergeAttributes (h : a.get? name = some value) (e : Element) :
  (e.mergeAttributes a).hasAttribute name = true
  := by
  have hmem : name ∈ a.names := by
    rw [Attributes.mem_names_iff, h]
    rfl
  rw [hasAttribute_iff_mem_names, names_mergeAttributes, List.mem_append]
  by_cases hown : name ∈ e.attributes.names
  · exact .inl hown
  · exact .inr (List.mem_filter.mpr ⟨hmem, decide_eq_true hown⟩)

/-- A map that was merged changes nothing when it is merged again. -/
theorem mergeAttributes_idempotent (e : Element) (a : Attributes) :
  (e.mergeAttributes a).mergeAttributes a = e.mergeAttributes a
  := by
  rw [mergeAttributes_eq (e.mergeAttributes a)]
  apply foldl_mergePair_eq_self
  intro p hp
  have hget : a.get? p.1 = some p.2 := (a.mem_pairs_iff p.1 p.2).mp hp
  rw [mergePair]
  split
  · next hclass =>
    rw [hclass] at hget
    apply addClass_eq_self
    · apply newClasses_of_classList_eq (classList_mergeAttributes hget e)
    · apply hasAttribute_mergeAttributes hget e
  · next hclass =>
    have hown := attribute?_mergeAttributes hclass hget e
    rw [setAttribute, Attributes.insert_of_get? hown]
    apply eta

end

/-- Merging a map gives an element the values of the map, the class list apart, which gets the new
words of the map at its end, and leaves it every other value.  The names that are new come after
those that are there, each in the order they have, the tag and the children stay, and merging the
map again changes nothing. -/
theorem mergeAttributes_overrides (e : Element) (a : Attributes) :
  (∀ name value, name ≠ "class" → a.get? name = some value →
      (e.mergeAttributes a).attribute? name = some value)
    ∧ (∀ name, a.get? name = none → (e.mergeAttributes a).attribute? name = e.attribute? name)
    ∧ (∀ value, a.get? "class" = some value →
      (e.mergeAttributes a).classList
        = e.classList ++ ((Text.tokens value).removeAll e.classList).eraseDups)
    ∧ (e.mergeAttributes a).attributes.names
      = e.attributes.names ++ a.names.filter (· ∉ e.attributes.names)
    ∧ (e.mergeAttributes a).tag = e.tag
    ∧ (e.mergeAttributes a).children = e.children
    ∧ (e.mergeAttributes a).mergeAttributes a = e.mergeAttributes a
  := by
  have hrest := foldl_mergePair_eq_setAttributes e a.pairs
  refine ⟨?_, ?_, ?_, names_mergeAttributes e a, ?_, ?_, mergeAttributes_idempotent e a⟩
  · intro name value hname hget
    apply attribute?_mergeAttributes hname hget
  · intro name hget
    apply attribute?_mergeAttributes_of_get?_eq_none hget
  · intro value hget
    apply classList_mergeAttributes hget
  · rw [mergeAttributes_eq, hrest]
    rfl
  · rw [mergeAttributes_eq, hrest]
    rfl

/-- A link gets another target, one more class and a relation behind its attributes. -/
theorem mergeAttributes_overrides_link :
  let e : Element :=
    ⟨"a", .ofList [("class", "link"), ("id", "x"), ("href", "/")], [.text "home"]⟩
  let a : Attributes :=
    .ofList [("rel", "next"), ("class", " active\tlink active"), ("href", "/home")]
  ("href" ≠ "class" ∧ a.get? "href" = some "/home"
      ∧ (e.mergeAttributes a).attribute? "href" = some "/home")
    ∧ (a.get? "id" = none ∧ (e.mergeAttributes a).attribute? "id" = some "x")
    ∧ (a.get? "class" = some " active\tlink active"
      ∧ (e.mergeAttributes a).classList = ["link", "active"])
    ∧ (e.mergeAttributes a).attributes.names = ["class", "id", "href", "rel"]
  := by
  intro e a
  have hhref : a.get? "href" = some "/home" := by decide
  have hid : a.get? "id" = none := by decide
  have hclass : a.get? "class" = some " active\tlink active" := by decide
  have hne : "href" ≠ "class" := by decide
  obtain ⟨hvalue, hown, hlist, hnames, -⟩ := mergeAttributes_overrides e a
  refine ⟨⟨hne, hhref, hvalue _ _ hne hhref⟩, ⟨hid, (hown _ hid).trans ?_⟩,
    ⟨hclass, (hlist _ hclass).trans ?_⟩, hnames.trans ?_⟩
  · decide
  · decide +kernel
  · decide

end Element

end Hypertext
