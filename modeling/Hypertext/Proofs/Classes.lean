import Hypertext.Tree.Attribute

/-!
# Class lists

The attribute `class` is one text, which is cut into words each time it is read and joined again
each time it is written.  Still it counts as an ordered set: `Element.classList_addClass` and
`Element.classList_removeClass` say what the list is after a change, and
`Element.addClass_addClass` that adding words one after the other is adding them together.  A list
without a change keeps the spelling it has, so the proofs split where that is decided, as
`Element.addClass_eq_ite` and `Element.removeClass_cases` do.
-/

namespace Hypertext

namespace Element

/-- The words of a text that are not in the class list, in the order of the text, each once. -/
def newClasses (e : Element) (names : String) : List String :=
  ((Text.tokens names).removeAll e.classList).eraseDups

/-- Whether an element has the tag, the children and, in the same order, the attributes of another
one, the attribute `class` apart. -/
structure SameButClass (e e' : Element) : Prop where
  tag : e'.tag = e.tag
  children : e'.children = e.children
  others : e'.attributes.erase "class" = e.attributes.erase "class"

section

variable {e : Element} {name : String} {list : List String}

/-! ### Lists of words -/

/-- The names in a class list are words. -/
theorem isWord_of_mem_classList (h : name ∈ e.classList) :
  Text.IsWord name
  := by
  rw [classList] at h
  cases hclass : e.attribute? "class" with
  | none => simp [hclass] at h
  | some value =>
    rw [hclass] at h
    apply Text.isWord_of_mem_tokens h

/-- The names that are new are words. -/
theorem isWord_of_mem_newClasses {names : String} (h : name ∈ e.newClasses names) :
  Text.IsWord name
  := by
  rw [newClasses, List.mem_eraseDups] at h
  apply Text.isWord_of_mem_tokens (List.mem_filter.mp h).1

/-- Adding the items that a list does not have yet puts the others at its end, each once. -/
theorem appendNew_eq (list items : List String) :
  appendNew list items = list ++ (items.removeAll list).eraseDups
  := by
  induction items generalizing list with
  | nil => simp [appendNew, List.removeAll]
  | cons item items ih =>
    rw [appendNew, List.foldl_cons]
    by_cases hmem : list.contains item
    · rw [if_pos hmem]
      have hitems : (item :: items).removeAll list = items.removeAll list := by
        simp_all [List.removeAll]
      rw [hitems]
      apply ih
    · rw [if_neg hmem]
      have hitems : (item :: items).removeAll list = item :: items.removeAll list := by
        simp_all [List.removeAll]
      have hrest : items.removeAll (list ++ [item])
          = (items.removeAll list).filter fun other => !other == item := by
        simp only [List.removeAll, List.filter_filter]
        apply List.filter_congr
        intro other _
        rw [Bool.eq_iff_iff]
        simp [and_comm]
      rw [hitems, List.eraseDups_cons, ← hrest]
      apply (ih (list ++ [item])).trans (List.append_assoc _ _ _)

/-- It does not matter whether what is removed has duplicates, or is removed in two parts. -/
theorem removeAll_append_eraseDups (items list new : List String) :
  items.removeAll (list ++ new.eraseDups) = (items.removeAll list).removeAll new
  := by
  rw [List.removeAll, List.removeAll, List.removeAll, List.filter_filter]
  apply List.filter_congr
  intro item _
  rw [Bool.eq_iff_iff]
  simp [List.mem_eraseDups, and_comm]

/-! ### Writing the list -/

/-- An element whose class list is set has the attribute, even if the list is empty. -/
theorem hasAttribute_setClassList (list : List String) :
  (e.setClassList list).hasAttribute "class" = true
  := by
  rw [setClassList, hasAttribute_eq_isSome, attribute?_setAttribute, if_pos rfl]
  rfl

/-- A list of words that is written is read back. -/
theorem classList_setClassList (h : ∀ name ∈ list, Text.IsWord name) :
  (e.setClassList list).classList = list
  := by
  rw [classList, setClassList, attribute?_setAttribute, if_pos rfl]
  apply Text.tokens_intercalate h

/-- Of two class lists that are set the second counts. -/
theorem setClassList_setClassList (first second : List String) :
  (e.setClassList first).setClassList second = e.setClassList second
  := by
  simp [setClassList, setAttribute, setAttributes, Attributes.insert_insert]

theorem sameButClass_setClassList (list : List String) :
  e.SameButClass (e.setClassList list)
  where
  tag := rfl
  children := rfl
  others := e.attributes.erase_insert "class" _

/-! ### Adding words -/

/-- Adding words writes the list with the new ones at its end, unless there are no new ones and a
list to keep. -/
theorem addClass_eq_ite (e : Element) (names : String) :
  e.addClass names
    = if e.newClasses names = [] ∧ e.hasAttribute "class" then e
      else e.setClassList (e.classList ++ e.newClasses names)
  := by
  have hlength : (appendNew e.classList (Text.tokens names)).length = e.classList.length
      ↔ e.newClasses names = [] := by
    rw [appendNew_eq, List.length_append, Nat.add_eq_left, List.length_eq_zero_iff, newClasses]
  rw [addClass, appendNew_eq]
  rw [appendNew_eq] at hlength
  simp only [Bool.and_eq_true, decide_eq_true_iff, hlength]
  rfl

/-- Adding words adds those that are new, at the end of the list. -/
theorem classList_addClass (e : Element) (names : String) :
  (e.addClass names).classList = e.classList ++ e.newClasses names
  := by
  rw [addClass_eq_ite]
  split
  · next h => rw [h.1, List.append_nil]
  · apply classList_setClassList
    intro name hname
    rcases List.mem_append.mp hname with hold | hnew
    · apply isWord_of_mem_classList hold
    · apply isWord_of_mem_newClasses hnew

/-- An element to which words are added has the attribute, even if there are none. -/
theorem hasAttribute_addClass (e : Element) (names : String) :
  (e.addClass names).hasAttribute "class" = true
  := by
  rw [addClass_eq_ite]
  split
  · next h => exact h.2
  · apply hasAttribute_setClassList

/-- After words are added, adding others is the same as with the list written anew. -/
theorem setClassList_addClass (e : Element) (names : String) (list : List String) :
  (e.addClass names).setClassList list = e.setClassList list
  := by
  rw [addClass_eq_ite]
  split
  · rfl
  · apply setClassList_setClassList

/-- The new words of two texts are those of the first and then those of the second that the first
does not have. -/
theorem newClasses_append (e : Element) (first second : String) :
  e.newClasses (first ++ " " ++ second)
    = e.newClasses first ++ (e.addClass first).newClasses second
  := by
  have hremove : (Text.tokens first ++ Text.tokens second).removeAll e.classList
      = (Text.tokens first).removeAll e.classList ++ (Text.tokens second).removeAll e.classList :=
    List.filter_append _ _
  rw [newClasses, Text.tokens_append_space, hremove, List.eraseDups_append, newClasses, newClasses,
    classList_addClass, newClasses, removeAll_append_eraseDups]

/-- The words of one text added and then those of another are the words of both added together. -/
theorem addClass_addClass (e : Element) (first second : String) :
  (e.addClass first).addClass second = e.addClass (first ++ " " ++ second)
  := by
  have hfirst := addClass_eq_ite e first
  rw [addClass_eq_ite (e.addClass first), addClass_eq_ite e (first ++ " " ++ second),
    hasAttribute_addClass, newClasses_append, setClassList_addClass, classList_addClass]
  by_cases hsecond : (e.addClass first).newClasses second = []
  · rw [if_pos ⟨hsecond, rfl⟩, hsecond, List.append_nil]
    exact hfirst
  · simp [hsecond]

/-- The words that are new are those of the text that are not in the class list. -/
theorem mem_newClasses_iff {names : String} :
  name ∈ e.newClasses names ↔ name ∈ Text.tokens names ∧ name ∉ e.classList
  := by
  rw [newClasses, List.mem_eraseDups, List.removeAll, List.mem_filter]
  simp

/-- Words that are at the end of a class list are no new words. -/
theorem newClasses_of_classList_eq {e' : Element} {names : String}
    (h : e'.classList = e.classList ++ e.newClasses names) :
  e'.newClasses names = []
  := by
  apply List.eq_nil_iff_forall_not_mem.mpr
  intro name hname
  rw [mem_newClasses_iff, h, List.mem_append, mem_newClasses_iff] at hname
  obtain ⟨htoken, hnew⟩ := hname
  by_cases hold : name ∈ e.classList
  · exact hnew (.inl hold)
  · exact hnew (.inr ⟨htoken, hold⟩)

/-- A text without new words leaves a class list that is there as it is. -/
theorem addClass_eq_self {names : String} (hnew : e.newClasses names = [])
    (hclass : e.hasAttribute "class" = true) :
  e.addClass names = e
  := by rw [addClass_eq_ite, if_pos ⟨hnew, hclass⟩]

/-- Adding the same words once more changes nothing. -/
theorem addClass_idempotent (e : Element) (names : String) :
  (e.addClass names).addClass names = e.addClass names
  := by
  apply addClass_eq_self _ (e.hasAttribute_addClass names)
  apply newClasses_of_classList_eq (e.classList_addClass names)

/-- Adding words leaves the rest of an element alone. -/
theorem sameButClass_addClass (e : Element) (names : String) :
  e.SameButClass (e.addClass names)
  := by
  rw [addClass_eq_ite]
  split
  · exact ⟨rfl, rfl, rfl⟩
  · apply sameButClass_setClassList

/-- Setting the class list adds the attribute at the end if it was not there. -/
theorem names_setClassList (list : List String) :
  (e.setClassList list).attributes.names
    = if e.hasAttribute "class" then e.attributes.names else e.attributes.names ++ ["class"]
  := by
  simp only [hasAttribute_iff_mem_names]
  apply Attributes.names_insert

/-- The class list keeps its place among the attributes, and a new one comes last. -/
theorem names_addClass (e : Element) (names : String) :
  (e.addClass names).attributes.names
    = if e.hasAttribute "class" then e.attributes.names else e.attributes.names ++ ["class"]
  := by
  rw [addClass_eq_ite]
  split
  · next h => rw [if_pos h.2]
  · apply names_setClassList

/-! ### Removing a word -/

/-- There is nothing to be removed from an element without the attribute. -/
theorem removeClass_of_not_hasAttribute (h : e.hasAttribute "class" = false) (name : String) :
  e.removeClass name = e
  := by simp [removeClass, h]

/-- All that removing a word can do: nothing to an element without a class list, else removing a
list of which nothing is left, else writing what is left. -/
theorem removeClass_cases (e : Element) (name : String) :
  e.hasAttribute "class" = false ∧ e.removeClass name = e
    ∨ e.classList.filter (· ≠ name) = [] ∧ e.removeClass name = e.removeAttribute "class"
    ∨ e.hasAttribute "class" = true ∧ e.classList.filter (· ≠ name) ≠ []
      ∧ e.removeClass name = e.setClassList (e.classList.filter (· ≠ name))
  := by
  cases hclass : e.hasAttribute "class" with
  | false =>
    left
    exact ⟨rfl, removeClass_of_not_hasAttribute hclass name⟩
  | true =>
    right
    rw [removeClass, if_pos hclass]
    by_cases hleft : e.classList.filter (· ≠ name) = []
    · left
      simp only [hleft, List.isEmpty_nil, if_true, and_self]
    · right
      have hempty : (e.classList.filter (· ≠ name)).isEmpty = false :=
        List.isEmpty_eq_false_iff.mpr hleft
      refine ⟨rfl, hleft, ?_⟩
      simp only [hempty, Bool.false_eq_true, if_false]

/-- An attribute that is removed is not there. -/
theorem hasAttribute_removeAttribute (e : Element) (name : String) :
  (e.removeAttribute name).hasAttribute name = false
  := by
  rw [hasAttribute_eq_isSome, attribute?_removeAttribute, if_pos rfl]
  rfl

theorem classList_of_not_hasAttribute (h : e.hasAttribute "class" = false) :
  e.classList = []
  := by
  rw [hasAttribute_eq_isSome, Option.isSome_eq_false_iff, Option.isNone_iff_eq_none] at h
  rw [classList, h]
  rfl

/-- Removing a name takes it out of the class list, wherever it stands. -/
theorem classList_removeClass (e : Element) (name : String) :
  (e.removeClass name).classList = e.classList.filter (· ≠ name)
  := by
  obtain ⟨hclass, h⟩ | ⟨hleft, h⟩ | ⟨-, -, h⟩ := e.removeClass_cases name
  · rw [h, classList_of_not_hasAttribute hclass, List.filter_nil]
  · rw [h, hleft]
    apply classList_of_not_hasAttribute (e.hasAttribute_removeAttribute "class")
  · rw [h]
    apply classList_setClassList
    intro other hother
    apply isWord_of_mem_classList (e := e) (List.mem_filter.mp hother).1

/-- After a word is removed the attribute is there only if a word is left. -/
theorem hasAttribute_removeClass_iff (e : Element) (name : String) :
  (e.removeClass name).hasAttribute "class" = false ↔ (e.removeClass name).classList = []
  := by
  constructor
  · exact classList_of_not_hasAttribute
  · intro hempty
    rw [classList_removeClass] at hempty
    obtain ⟨hclass, h⟩ | ⟨-, h⟩ | ⟨-, hleft, -⟩ := e.removeClass_cases name
    · rwa [h]
    · rw [h]
      apply e.hasAttribute_removeAttribute
    · exact absurd hempty hleft

/-- An element does not have the class that was removed. -/
theorem hasClass_removeClass (e : Element) (name : String) :
  (e.removeClass name).hasClass name = false
  := by
  rw [hasClass, classList_removeClass]
  simp

/-- Removing the same name once more changes nothing. -/
theorem removeClass_idempotent (e : Element) (name : String) :
  (e.removeClass name).removeClass name = e.removeClass name
  := by
  have hfilter :
      (e.removeClass name).classList.filter (· ≠ name) = e.classList.filter (· ≠ name) := by
    rw [classList_removeClass, List.filter_filter]
    simp only [Bool.and_self]
  obtain ⟨-, h⟩ | ⟨-, h⟩ | ⟨-, hleft, h⟩ := e.removeClass_cases name
  · rw [h, h]
  · rw [h]
    apply removeClass_of_not_hasAttribute (e.hasAttribute_removeAttribute "class")
  · obtain ⟨-, hagain⟩ | ⟨hempty, -⟩ | ⟨-, -, hagain⟩ :=
      (e.removeClass name).removeClass_cases name
    · exact hagain
    · rw [hfilter] at hempty
      exact absurd hempty hleft
    · rw [hagain, hfilter, h]
      apply setClassList_setClassList

/-- Removing a name leaves the rest of an element alone. -/
theorem sameButClass_removeClass (e : Element) (name : String) :
  e.SameButClass (e.removeClass name)
  := by
  obtain ⟨-, h⟩ | ⟨-, h⟩ | ⟨-, -, h⟩ := e.removeClass_cases name
  · rw [h]
    exact ⟨rfl, rfl, rfl⟩
  · rw [h]
    exact ⟨rfl, rfl, e.attributes.erase_erase "class"⟩
  · rw [h]
    apply sameButClass_setClassList

/-- The attributes keep their places, or close up where the class list was if no word is left. -/
theorem names_removeClass (e : Element) (name : String) :
  (e.removeClass name).attributes.names
    = if (e.removeClass name).classList = [] then e.attributes.names.filter (· ≠ "class")
      else e.attributes.names
  := by
  rw [classList_removeClass]
  obtain ⟨hclass, h⟩ | ⟨hleft, h⟩ | ⟨hclass, hleft, h⟩ := e.removeClass_cases name
  · have hnot : "class" ∉ e.attributes.names := by
      rw [← hasAttribute_iff_mem_names, hclass]
      apply Bool.false_ne_true
    have hnames : e.attributes.names.filter (· ≠ "class") = e.attributes.names := by
      apply List.filter_eq_self.mpr
      intro other hother
      apply decide_eq_true
      rintro rfl
      exact hnot hother
    rw [h, hnames, ite_self]
  · rw [h, if_pos hleft]
    apply Attributes.names_erase
  · rw [h, if_neg hleft, names_setClassList, if_pos hclass]

end

/-- The class list is an ordered set of words, however it is spelled: adding words puts the new ones
at its end, each once, in their order, and two texts one after the other are added like both
together; removing a word takes all of it away, and the attribute with the last word; either of them
done again changes nothing more.  Neither changes the tag, the children or another attribute, the
others stay in their order, and only the class list itself comes last when it is new and goes when
it is empty. -/
theorem classList_orderedSet (e : Element) (first second name : String) :
  (e.addClass first).classList
      = e.classList ++ ((Text.tokens first).removeAll e.classList).eraseDups
    ∧ (e.addClass first).addClass second = e.addClass (first ++ " " ++ second)
    ∧ (e.addClass first).addClass first = e.addClass first
    ∧ (e.removeClass name).classList = e.classList.filter (· ≠ name)
    ∧ (e.removeClass name).hasClass name = false
    ∧ ((e.removeClass name).hasAttribute "class" = false ↔ (e.removeClass name).classList = [])
    ∧ (e.removeClass name).removeClass name = e.removeClass name
    ∧ e.SameButClass (e.addClass first)
    ∧ (e.addClass first).attributes.names
      = (if e.hasAttribute "class" then e.attributes.names else e.attributes.names ++ ["class"])
    ∧ e.SameButClass (e.removeClass name)
    ∧ (e.removeClass name).attributes.names
      = (if (e.removeClass name).classList = [] then e.attributes.names.filter (· ≠ "class")
        else e.attributes.names)
  := by
  refine ⟨e.classList_addClass first, e.addClass_addClass first second,
    e.addClass_idempotent first, e.classList_removeClass name, e.hasClass_removeClass name,
    e.hasAttribute_removeClass_iff name, e.removeClass_idempotent name,
    e.sameButClass_addClass first, e.names_addClass first, e.sameButClass_removeClass name,
    e.names_removeClass name⟩

/-- Only a list with a new word is spelled anew. -/
example :
  let e : Element := ⟨"p", .ofList [("class", " a\tb "), ("id", "x")], []⟩
  (e.addClass "b a").attributes.pairs = [("class", " a\tb "), ("id", "x")]
    ∧ (e.addClass "b c c").attributes.pairs = [("class", "a b c"), ("id", "x")]
  := by decide +kernel

end Element

end Hypertext
