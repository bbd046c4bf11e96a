/-!
# Selectors

A `Selector` lists alternatives.  Each of them is a `Complex` selector, a chain of `Compound`
selectors for an element and for elements above it, outermost first, and a compound selector
lists the `Simple` selectors that one element has to match.
-/

namespace Hypertext

namespace Selector

/-- How the value of an attribute is compared with the value in a selector. -/
inductive Operator where
  /-- The attribute is there, whatever its value. -/
  | present
  | equal
  /-- One of the words of the value is the given one. -/
  | includes
  /-- The value is the given one, or goes on with a hyphen after it. -/
  | dash
  | startsWith
  | endsWith
  | contains
deriving DecidableEq, Repr

namespace Operator

/-- All operators. -/
def all : List Operator :=
  [.present, .equal, .includes, .dash, .startsWith, .endsWith, .contains]

/-- The sign between an attribute and a value; presence needs none. -/
def symbol : Operator → String
  | .present => ""
  | .equal => "="
  | .includes => "~="
  | .dash => "|="
  | .startsWith => "^="
  | .endsWith => "$="
  | .contains => "*="

/-- The operator with a sign. -/
def ofSymbol? (symbol : String) : Option Operator := all.find? (·.symbol == symbol)

/-- An operator is found by its symbol. -/
@[simp]
theorem ofSymbol?_symbol (o : Operator) :
  ofSymbol? o.symbol = some o
  := by
  cases o <;> decide

end Operator

/-- A test of one attribute. -/
structure AttributeTest where
  name : String
  /-- What stands before a bar in front of the name. -/
  scope : Option String
  operator : Operator
  value : String
  flags : Option String
deriving DecidableEq, Repr

namespace AttributeTest

/-- Whether the values are compared without regard to the case of ASCII letters. -/
def ignoresCase (t : AttributeTest) : Bool := t.flags == some "i"

end AttributeTest

/-- What can be asked about the surroundings of an element. -/
inductive PseudoClass where
  | firstChild
  | lastChild
  | empty
deriving DecidableEq, Repr

namespace PseudoClass

/-- All pseudo-classes. -/
def all : List PseudoClass := [.firstChild, .lastChild, .empty]

/-- The name of a pseudo-class. -/
def name : PseudoClass → String
  | .firstChild => "first-child"
  | .lastChild => "last-child"
  | .empty => "empty"

/-- The pseudo-class with a name. -/
def ofName? (name : String) : Option PseudoClass := all.find? (·.name == name)

/-- A pseudo-class is found by its name. -/
@[simp]
theorem ofName?_name (p : PseudoClass) :
  ofName? p.name = some p
  := by
  cases p <;> decide

end PseudoClass

/-- One condition on an element. -/
inductive Simple where
  | element (name : String)
  | universal
  | className (name : String)
  | id (name : String)
  | attribute (test : AttributeTest)
  /-- Pseudo-classes that stand next to each other. -/
  | pseudo (kinds : List PseudoClass)
deriving DecidableEq, Repr

/-- Conditions on one element, all of which have to hold. -/
abbrev Compound : Type := List Simple

/-- Conditions on an element, the last ones, and on elements above it, outermost first. -/
abbrev Complex : Type := List Compound

end Selector

/-- Alternatives, one of which has to hold. -/
abbrev Selector : Type := List Selector.Complex

end Hypertext
