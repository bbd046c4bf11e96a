import Hypertext.Proofs.Letters
import Hypertext.Selector.Match
import Mathlib.Data.List.Forall2
import Mathlib.Data.List.Infix

/-!
# Comparing without regard to case

With the flag `i` both values of a comparison are put in lower case first.  Lower case keeps the
words of a text apart, and it keeps what is equal, a beginning, an end or a part, so every
comparison that holds of two texts holds of them in lower case, as `Operator.test_lowerCase` says.
And texts that differ in the case of ASCII letters only, which is `Recased`, are the same in lower
case.
-/

namespace Hypertext

namespace Selector

/-! ### Texts in lower case -/

@[simp]
theorem toList_lowerCase (s : String) :
  (lowerCase s).toList = s.toList.map Char.toLower
  := by
  rw [lowerCase, String.toList_ofList]

/-- The words of a text in lower case are its words in lower case. -/
theorem tokens_lowerCase (s : String) :
  Text.tokens (lowerCase s) = (Text.tokens s).map lowerCase
  := by
  rw [Text.tokens, toList_lowerCase, Text.words_map_toLower, Text.tokens, List.map_map,
    List.map_map]
  congr 1
  funext word
  simp [lowerCase]

/-- A part occurs in a text if it stands somewhere in it. -/
theorem occursIn_iff (part cs : List Char) :
  occursIn part cs ↔ part <:+: cs
  := by
  induction cs with
  | nil => rw [occursIn, List.isEmpty_iff, List.infix_nil]
  | cons c cs ih =>
    rw [occursIn, Bool.or_eq_true, List.isPrefixOf_iff_prefix, ih, List.infix_cons_iff]

/-- A comparison that holds of two texts holds of them in lower case. -/
theorem Operator.test_lowerCase {o : Operator} {actual expected : String}
    (h : o.test actual expected) :
  o.test (lowerCase actual) (lowerCase expected)
  := by
  cases o with
  | present => rfl
  | equal =>
    rw [test, beq_iff_eq] at h ⊢
    rw [h]
  | includes =>
    rw [test, List.contains_iff_mem] at h ⊢
    rw [tokens_lowerCase]
    apply List.mem_map_of_mem h
  | dash =>
    rw [test, Bool.or_eq_true, beq_iff_eq, List.isPrefixOf_iff_prefix] at h ⊢
    rcases h with rfl | h
    · left
      rfl
    · right
      have hmap := h.map Char.toLower
      rw [List.map_append] at hmap
      rw [toList_lowerCase, toList_lowerCase]
      apply hmap
  | startsWith =>
    rw [test, List.isPrefixOf_iff_prefix] at h ⊢
    rw [toList_lowerCase, toList_lowerCase]
    apply h.map
  | endsWith =>
    rw [test, List.isSuffixOf_iff_suffix] at h ⊢
    rw [toList_lowerCase, toList_lowerCase]
    apply h.map
  | contains =>
    rw [test, occursIn_iff] at h ⊢
    rw [toList_lowerCase, toList_lowerCase]
    apply h.map

/-! ### Texts in another case -/

/-- The second character is the first one, or that letter of ASCII in the other case. -/
def SameLetter (c d : Char) : Prop := d = c ∨ d = c.toLower ∨ d = c.toUpper

/-- The second text is the first one with some letters of ASCII in the other case. -/
def Recased (s t : String) : Prop := List.Forall₂ SameLetter s.toList t.toList

theorem SameLetter.toLower_eq {c d : Char} (h : SameLetter c d) :
  c.toLower = d.toLower
  := by
  rcases h with rfl | rfl | rfl
  · rfl
  · rw [Char.toLower_toLower_eq_toLower]
  · rw [Char.toLower_toUpper_eq_toLower]

/-- Texts that differ in the case of letters only are the same in lower case. -/
theorem Recased.lowerCase_eq {s t : String} (h : Recased s t) :
  lowerCase s = lowerCase t
  := by
  have hmap : s.toList.map Char.toLower = t.toList.map Char.toLower := by
    apply List.forall₂_eq_eq_eq ▸ List.rel_map _ h
    intro c d hcd
    apply hcd.toLower_eq
  rw [lowerCase, hmap, lowerCase]

/-! ### Tests of attributes -/

namespace AttributeTest

/-- The test with another value and with the flag that ignores case. -/
def ignoringCase (t : AttributeTest) (value : String) : AttributeTest :=
  { t with value := value, flags := some "i" }

/-- The test without flags. -/
def withoutFlags (t : AttributeTest) : AttributeTest := { t with flags := none }

/-- Without regard to case both values are compared in lower case. -/
theorem acceptsElement_ignoringCase (t : AttributeTest) (value : String) (e : Element) :
  (t.ignoringCase value).acceptsElement e
    = (e.attribute? t.fullName).any fun actual =>
      t.operator.test (lowerCase actual) (lowerCase value)
  := by
  have hname : (t.ignoringCase value).fullName = t.fullName := rfl
  rw [acceptsElement, hname]
  cases e.attribute? t.fullName <;> rfl

/-- Without flags the values are compared as they are. -/
theorem acceptsElement_withoutFlags (t : AttributeTest) (e : Element) :
  t.withoutFlags.acceptsElement e
    = (e.attribute? t.fullName).any fun actual => t.operator.test actual t.value
  := by
  have hname : t.withoutFlags.fullName = t.fullName := rfl
  rw [acceptsElement, hname]
  cases e.attribute? t.fullName <;> rfl

/-- What a test accepts without flags it accepts without regard to case, and then letters of ASCII
in the other case, in the value of the attribute and in that of the test, change nothing. -/
theorem ignoringCase_of_withoutFlags (t : AttributeTest) (e : Element) :
  (t.withoutFlags.acceptsElement e → (t.ignoringCase t.value).acceptsElement e)
    ∧ ∀ (value : String) (e' : Element), Recased t.value value
      → Option.Rel Recased (e.attribute? t.fullName) (e'.attribute? t.fullName)
      → (t.ignoringCase value).acceptsElement e' = (t.ignoringCase t.value).acceptsElement e
  := by
  constructor
  · rw [acceptsElement_withoutFlags, acceptsElement_ignoringCase, Option.any_eq_true,
      Option.any_eq_true]
    rintro ⟨actual, hactual, htest⟩
    use actual, hactual
    apply Operator.test_lowerCase htest
  · intro value e' hvalue hactual
    rw [acceptsElement_ignoringCase, acceptsElement_ignoringCase, hvalue.lowerCase_eq]
    generalize e.attribute? t.fullName = actual, e'.attribute? t.fullName = actual' at hactual ⊢
    cases hactual with
    | none => rfl
    | some hactual => rw [Option.any_some, Option.any_some, hactual.lowerCase_eq]

/-- A word is found after one with letters beyond ASCII, also when letters of ASCII are in the other
case. -/
theorem ignoringCase_of_withoutFlags_word :
  let t : AttributeTest := ⟨"lang", some "xml", .includes, "Foo", some "s"⟩
  let e : Element := ⟨"p", .ofList [("xml:lang", "Été\u3000Foo")], []⟩
  let e' : Element := ⟨"p", .ofList [("xml:lang", "ÉTé\u3000fOO")], []⟩
  t.withoutFlags.acceptsElement e
    ∧ ¬t.withoutFlags.acceptsElement e'
    ∧ Recased t.value "fOo"
    ∧ Option.Rel Recased (e.attribute? t.fullName) (e'.attribute? t.fullName)
    ∧ (t.ignoringCase t.value).acceptsElement e
    ∧ (t.ignoringCase "fOo").acceptsElement e'
  := by
  intro t e e'
  have haccepts : t.withoutFlags.acceptsElement e := by decide
  have hvalue : Recased t.value "fOo" := by
    simp [t, Recased, SameLetter]
  have hactual : Option.Rel Recased (e.attribute? t.fullName) (e'.attribute? t.fullName) := by
    apply Option.Rel.some
    simp [Recased, SameLetter]
  obtain ⟨hplain, hsame⟩ := ignoringCase_of_withoutFlags t e
  have hignoring := hplain haccepts
  refine ⟨haccepts, by decide, hvalue, hactual, hignoring, ?_⟩
  rw [hsame "fOo" e' hvalue hactual]
  apply hignoring

end AttributeTest

end Selector

end Hypertext
