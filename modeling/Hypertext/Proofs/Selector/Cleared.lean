import Hypertext.Selector.Canonical

/-!
# What comes back of a selector

A printed selector is read back with U+FFFD in the place of every U+0000, which is what `cleared`
makes of a text and of each level of selectors.  It is the same selector exactly if no name or value
has a U+0000 in it, `HasNull`.  The other thing that keeps a selector from coming back is a
name that is a hyphen alone, `HasHyphen`.  Both can be checked by evaluation.
-/

namespace Hypertext.Selector

/-! ### Texts -/

/-- The character that is read where a character was printed. -/
def clearedChar (c : Char) : Char := if c = '\x00' then '\ufffd' else c

/-- A text with U+FFFD in the place of U+0000. -/
def clearedText (text : String) : String := String.ofList (text.toList.map clearedChar)

/-- Every character but U+0000 comes back unchanged. -/
theorem clearedChar_eq_self_iff {c : Char} :
  clearedChar c = c ↔ c ≠ '\x00'
  := by
  rw [clearedChar]
  split
  · next h =>
    subst h
    decide
  · next h => simp [h]

/-- A text comes back unchanged exactly if U+0000 does not occur in it. -/
theorem clearedText_eq_self_iff {text : String} :
  clearedText text = text ↔ '\x00' ∉ text.toList
  := by
  have hall := List.map_inj_left (f := clearedChar) (g := id) (l := text.toList)
  rw [List.map_id] at hall
  rw [clearedText, ← String.toList_inj, String.toList_ofList, hall]
  constructor
  · intro h hmem
    apply clearedChar_eq_self_iff.mp (h _ hmem) rfl
  · intro h c hc
    apply clearedChar_eq_self_iff.mpr
    rintro rfl
    apply h hc

theorem clearedText_ne_empty {text : String} (h : text ≠ "") :
  clearedText text ≠ ""
  := by
  intro hempty
  rw [clearedText, String.ofList_eq_empty_iff, List.map_eq_nil_iff,
    String.toList_eq_nil_iff] at hempty
  apply h hempty

/-! ### Simple selectors -/

/-- The test of an attribute with U+FFFD in the place of U+0000. -/
def AttributeTest.cleared (t : AttributeTest) : AttributeTest :=
  { t with
    name := clearedText t.name
    scope := t.scope.map clearedText
    value := clearedText t.value }

/-- A simple selector with U+FFFD in the place of U+0000. -/
def Simple.cleared : Simple → Simple
  | .element name => .element (clearedText name)
  | .universal => .universal
  | .className name => .className (clearedText name)
  | .id name => .id (clearedText name)
  | .attribute test => .attribute test.cleared
  | .pseudo kinds => .pseudo kinds

/-- The names in a simple selector that are written as identifiers. -/
def Simple.identifiers : Simple → List String
  | .element name => [name]
  | .className name => [name]
  | .attribute test => test.name :: test.scope.toList
  | _ => []

/-- The names and values in a simple selector. -/
def Simple.texts : Simple → List String
  | .element name => [name]
  | .universal => []
  | .className name => [name]
  | .id name => [name]
  | .attribute test => test.name :: test.value :: test.scope.toList
  | .pseudo _ => []

/-- U+0000 occurs in a name or a value of the simple selector. -/
def Simple.HasNull (s : Simple) : Prop := ∃ text ∈ s.texts, '\x00' ∈ text.toList

instance (s : Simple) : Decidable s.HasNull := by
  unfold Simple.HasNull
  infer_instance

/-- A test comes back unchanged exactly if U+0000 does not occur in it. -/
theorem AttributeTest.cleared_eq_self_iff {t : AttributeTest} :
  t.cleared = t ↔ ¬(Simple.attribute t).HasNull
  := by
  obtain ⟨name, scope, operator, value, flags⟩ := t
  simp only [cleared, mk.injEq, true_and, and_true, Simple.HasNull, Simple.texts, not_exists,
    not_and, List.forall_mem_cons, clearedText_eq_self_iff]
  cases scope with
  | none => simp
  | some scope => simp [clearedText_eq_self_iff, and_comm]

/-- A simple selector comes back unchanged exactly if U+0000 does not occur in it. -/
theorem Simple.cleared_eq_self_iff {s : Simple} :
  s.cleared = s ↔ ¬s.HasNull
  := by
  match s with
  | .element name | .className name | .id name =>
    simp [cleared, HasNull, texts, clearedText_eq_self_iff]
  | .universal | .pseudo kinds => simp [cleared, HasNull, texts]
  | .attribute test => rw [cleared, Simple.attribute.injEq, AttributeTest.cleared_eq_self_iff]

namespace Simple

@[simp]
theorem isType_cleared (s : Simple) :
  s.cleared.isType = s.isType
  := by
  cases s <;> rfl

@[simp]
theorem isPseudo_cleared (s : Simple) :
  s.cleared.isPseudo = s.isPseudo
  := by
  cases s <;> rfl

/-- A canonical simple selector comes back as one. -/
theorem isCanonical_cleared {s : Simple} (h : s.IsCanonical) :
  s.cleared.IsCanonical
  := by
  match s with
  | .element _ | .className _ | .id _ => apply clearedText_ne_empty h
  | .universal | .pseudo _ => apply h
  | .attribute test =>
    obtain ⟨hname, hscope, hflags, hpresent⟩ := h
    refine ⟨clearedText_ne_empty hname, ?_, hflags, ?_⟩
    · intro hempty
      obtain ⟨scope, hsome, hscope'⟩ := Option.map_eq_some_iff.mp hempty
      apply clearedText_ne_empty _ hscope'
      rintro rfl
      apply hscope hsome
    · intro hoperator
      obtain ⟨hvalue, hnone⟩ := hpresent hoperator
      exact ⟨by rw [AttributeTest.cleared, hvalue]; rfl, hnone⟩

end Simple

/-! ### Compound selectors -/

namespace Compound

/-- A compound selector with U+FFFD in the place of U+0000. -/
def cleared (c : Compound) : Compound := c.map Simple.cleared

/-- A name in the compound selector is a hyphen alone. -/
def HasHyphen (c : Compound) : Prop := ∃ s ∈ c, "-" ∈ s.identifiers

/-- U+0000 occurs in a name or a value of the compound selector. -/
def HasNull (c : Compound) : Prop := ∃ s ∈ c, s.HasNull

instance (c : Compound) : Decidable (HasHyphen c) := by
  unfold HasHyphen
  infer_instance

instance (c : Compound) : Decidable (HasNull c) := by
  unfold HasNull
  infer_instance

/-- A compound selector comes back unchanged exactly if U+0000 does not occur in it. -/
theorem cleared_eq_self_iff {c : Compound} :
  cleared c = c ↔ ¬HasNull c
  := by
  have hall := List.map_inj_left (f := Simple.cleared) (g := id) (l := c)
  rw [List.map_id] at hall
  simp only [cleared, hall, id_eq, Simple.cleared_eq_self_iff, HasNull, not_exists, not_and]

theorem separated_cleared (c : Compound) :
  separated (cleared c) = separated c
  := by
  match c with
  | [] | [_] => rfl
  | s :: t :: rest =>
    have ih := separated_cleared (t :: rest)
    simp only [cleared, List.map_cons, separated, Simple.isPseudo_cleared] at ih ⊢
    rw [ih]

/-- A canonical compound selector comes back as one. -/
theorem isCanonical_cleared {c : Compound} (h : Compound.IsCanonical c) :
  Compound.IsCanonical (cleared c)
  := by
  obtain ⟨hhead, htail, hsep, hall⟩ := h
  refine ⟨?_, ?_, (separated_cleared c).trans hsep, ?_⟩
  · rw [← hhead, cleared, List.map_map]
    congr 2
    funext s
    apply s.isType_cleared
  · intro s hs
    rw [cleared, ← List.map_tail] at hs
    obtain ⟨t, ht, rfl⟩ := List.mem_map.mp hs
    rw [Simple.isType_cleared]
    apply htail t ht
  · intro s hs
    obtain ⟨t, ht, rfl⟩ := List.mem_map.mp hs
    apply Simple.isCanonical_cleared (hall t ht)

end Compound

/-! ### Complex selectors -/

namespace Complex

/-- A complex selector with U+FFFD in the place of U+0000. -/
def cleared (c : Complex) : Complex := c.map Compound.cleared

/-- A name in the complex selector is a hyphen alone. -/
def HasHyphen (c : Complex) : Prop := ∃ d ∈ c, Compound.HasHyphen d

/-- U+0000 occurs in a name or a value of the complex selector. -/
def HasNull (c : Complex) : Prop := ∃ d ∈ c, Compound.HasNull d

instance (c : Complex) : Decidable (HasHyphen c) := by
  unfold HasHyphen
  infer_instance

instance (c : Complex) : Decidable (HasNull c) := by
  unfold HasNull
  infer_instance

/-- A complex selector comes back unchanged exactly if U+0000 does not occur in it. -/
theorem cleared_eq_self_iff {c : Complex} :
  cleared c = c ↔ ¬HasNull c
  := by
  have hall := List.map_inj_left (f := Compound.cleared) (g := id) (l := c)
  rw [List.map_id] at hall
  simp only [cleared, hall, id_eq, Compound.cleared_eq_self_iff, HasNull, not_exists, not_and]

end Complex

/-! ### Selectors -/

/-- A selector with U+FFFD in the place of U+0000. -/
def cleared (a : Selector) : Selector := a.map Complex.cleared

/-- A name of an element, a class, an attribute or a scope in the selector is a hyphen alone. -/
def HasHyphen (a : Selector) : Prop := ∃ c ∈ a, Complex.HasHyphen c

/-- U+0000 occurs in a name or a value of the selector. -/
def HasNull (a : Selector) : Prop := ∃ c ∈ a, Complex.HasNull c

instance (a : Selector) : Decidable (HasHyphen a) := by
  unfold HasHyphen
  infer_instance

instance (a : Selector) : Decidable (HasNull a) := by
  unfold HasNull
  infer_instance

/-- A selector comes back unchanged exactly if U+0000 does not occur in it. -/
theorem cleared_eq_self_iff {a : Selector} :
  cleared a = a ↔ ¬HasNull a
  := by
  have hall := List.map_inj_left (f := Complex.cleared) (g := id) (l := a)
  rw [List.map_id] at hall
  simp only [cleared, hall, id_eq, Complex.cleared_eq_self_iff, HasNull, not_exists, not_and]

end Hypertext.Selector
