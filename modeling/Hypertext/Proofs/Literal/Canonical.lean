import Hypertext.Literal.Normal
import Hypertext.Proofs.Reader
import Mathlib.Data.List.Forall2

/-!
# Canonical literals

`Literal.Describes l n` says that the literal `l` is read as the node `n` wherever it stands among
children.  A tag, texts as attributes and a list of such literals are read as the element that they
make up: `describes_list`.  So the canonical literal of an element is read as that element, with its
attributes in the order in which they are stored, as `toElement_ofElement` says.
-/

namespace Hypertext.Literal

/-- Whether a literal is read as a node at every place among children. -/
def Describes (l : Literal) (n : Node) : Prop := ∀ place, child place l = .ok n

/-- Texts are read as the values of attributes that they are; of several values of one name the last
counts. -/
theorem toAttributes_map_str (pairs : List (String × String)) :
  toAttributes (pairs.map fun p => (p.1, .str p.2)) = .ok (.ofList pairs)
  := by
  have hpairs : (pairs.map fun p => (p.1, .str p.2)).mapM attributePair = .ok pairs := by
    apply mapM_eq_ok
    rw [List.map_map]
    rfl
  rw [toAttributes, hpairs]
  rfl

/-- A literal that describes an element is read as it. -/
theorem Describes.toElement {l : Literal} {e : Element} (h : Describes l (.element e)) :
  l.toElement = .ok e
  := by
  have hchild := h 0
  cases l with
  | list items =>
    obtain ⟨_, hitems, hpure⟩ := eq_ok_of_bind hchild
    obtain rfl := Node.element.inj (Except.ok.inj hpure)
    apply hitems
  | element _ =>
    obtain rfl := Node.element.inj (Except.ok.inj hchild)
    rfl
  | object asNode =>
    obtain rfl := Except.ok.inj hchild
    rfl
  | _ => cases hchild

section

variable {ls : List Literal} {ns : List Node} (h : List.Forall₂ Describes ls ns)

include h

/-- Literals that describe nodes are read as these, from any place on. -/
theorem childrenFrom_of_describes (place : Nat) :
  childrenFrom place ls = .ok ns
  := by
  induction h generalizing place with
  | nil => rfl
  | cons hfirst _ ih =>
    rw [childrenFrom, hfirst place, ih]
    rfl

/-- A tag is not read as a child, so what follows in a list that describes children is not taken for
its attributes and content. -/
theorem startsWithTag_of_describes :
  startsWithTag ls = false
  := by
  cases h with
  | nil => rfl
  | @cons first n rest ns hfirst _ =>
    cases first with
    | tag name => cases hfirst 0
    | _ => rfl

/-- A list of literals that describe nodes is read as these, even if it stands for the children
itself. -/
theorem childrenOfContent_of_describes :
  childrenOfContent [.list ls] = .ok ns
  := by
  rw [childrenOfContent, startsWithTag_of_describes h]
  apply childrenFrom_of_describes h

/-- A tag, texts as attributes and a list of literals that describe children describe the element
that they make up. -/
theorem describes_list (name : String) (pairs : List (String × String)) :
  Describes (.list [.tag name, .map (pairs.map fun p => (p.1, .str p.2)), .list ls])
    (.element ⟨name, .ofList pairs, ns⟩)
  := by
  intro place
  rw [child, elementOfItems, tagName?]
  simp only [toAttributes_map_str, childrenOfContent_of_describes h]
  rfl

end

mutual

/-- The canonical literal of a node describes it. -/
theorem describes_ofChild (n : Node) :
  Describes (ofChild n) n
  := by
  match n with
  | .element ⟨name, attributes, children⟩ =>
    have hlist := describes_list (forall₂_describes_ofChildren children) name attributes.pairs
    rw [Attributes.ofList_pairs] at hlist
    apply hlist
  | .text content =>
    intro place
    rfl

/-- The canonical literals of nodes describe them. -/
theorem forall₂_describes_ofChildren (ns : List Node) :
  List.Forall₂ Describes (ofChildren ns) ns
  := by
  match ns with
  | [] => exact .nil
  | n :: ns => exact .cons (describes_ofChild n) (forall₂_describes_ofChildren ns)

end

/-- The canonical literal of an element is read as that element, with the attributes in the same
order.  So to describe what a literal was read as and to read it again changes nothing, also if the
literal was not canonical. -/
theorem toElement_ofElement :
  (∀ e : Element, (ofElement e).toElement = .ok e)
    ∧ ∀ l : Literal, (do (ofElement (← l.toElement)).toElement) = l.toElement
  := by
  have hread : ∀ e : Element, (ofElement e).toElement = .ok e :=
    fun e => (describes_ofChild (.element e)).toElement
  refine ⟨hread, ?_⟩
  intro l
  cases hl : l.toElement with
  | error e => rfl
  | ok e => apply hread e

end Hypertext.Literal
