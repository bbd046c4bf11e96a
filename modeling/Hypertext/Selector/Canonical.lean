import Hypertext.Selector

/-!
# Canonical selectors

A selector is canonical when it has the one form among all that mean the same which reading
gives: nothing is empty, every compound selector starts with its only type or universal selector,
pseudo-classes next to each other are one part, and a test for presence has neither a value nor
flags.
-/

namespace Hypertext.Selector

/-- Whether a simple selector is a type or the universal selector. -/
def Simple.isType : Simple → Bool
  | .element _ => true
  | .universal => true
  | _ => false

/-- Whether a simple selector is a run of pseudo-classes. -/
def Simple.isPseudo : Simple → Bool
  | .pseudo _ => true
  | _ => false

/-- Whether the test of an attribute is one that reading gives. -/
def AttributeTest.IsCanonical (t : AttributeTest) : Prop :=
  t.name ≠ "" ∧ t.scope ≠ some "" ∧ t.flags ∈ [none, some "i", some "s"]
    ∧ (t.operator = .present → t.value = "" ∧ t.flags = none)

/-- Whether a simple selector is one that reading gives. -/
def Simple.IsCanonical : Simple → Prop
  | .element name => name ≠ ""
  | .universal => True
  | .className name => name ≠ ""
  | .id name => name ≠ ""
  | .attribute test => test.IsCanonical
  | .pseudo kinds => kinds ≠ []

/-- Whether no two runs of pseudo-classes are next to each other. -/
def separated : List Simple → Bool
  | s :: t :: rest => !(s.isPseudo && t.isPseudo) && separated (t :: rest)
  | _ => true

/-- Whether a compound selector is one that reading gives. -/
def Compound.IsCanonical (c : Compound) : Prop :=
  (c.map Simple.isType).head? = some true ∧ (∀ s ∈ c.tail, ¬s.isType) ∧ separated c
    ∧ ∀ s ∈ c, s.IsCanonical

/-- Whether a complex selector is one that reading gives. -/
def Complex.IsCanonical (c : Complex) : Prop := c ≠ [] ∧ ∀ d ∈ c, Compound.IsCanonical d

/-- Whether a selector is one that reading gives. -/
def IsCanonical (s : Selector) : Prop := s ≠ [] ∧ ∀ c ∈ s, Complex.IsCanonical c

instance (t : AttributeTest) : Decidable t.IsCanonical := by
  unfold AttributeTest.IsCanonical
  infer_instance

instance (s : Simple) : Decidable s.IsCanonical := by
  cases s <;> unfold Simple.IsCanonical <;> infer_instance

instance (c : Compound) : Decidable (Compound.IsCanonical c) := by
  unfold Compound.IsCanonical
  infer_instance

instance (c : Complex) : Decidable (Complex.IsCanonical c) := by
  unfold Complex.IsCanonical
  infer_instance

instance (s : Selector) : Decidable (IsCanonical s) := by
  unfold IsCanonical
  infer_instance

end Hypertext.Selector
