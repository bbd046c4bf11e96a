import Hypertext.Path
import Hypertext.Selector
import Hypertext.Tree.Attribute

/-!
# Matching

`Selector.accepts` decides whether a selector matches the first element of a path.  All simple
selectors but the pseudo-classes look at that element alone, the pseudo-classes also at its
place, and the compound selectors before the last one are looked for among the elements above:
each of them takes the nearest element that it accepts.

`Selector.acceptsElement` decides the same for an element whose surroundings are not known.
-/

namespace Hypertext

namespace Selector

/-! ### Values -/

/-- Whether a text occurs in another one. -/
def occursIn (part : List Char) : List Char → Bool
  | [] => part.isEmpty
  | c :: cs => part.isPrefixOf (c :: cs) || occursIn part cs

/-- Whether an actual value compares to an expected one as an operator asks. -/
def Operator.test (o : Operator) (actual expected : String) : Bool :=
  match o with
  | .present => true
  | .equal => actual == expected
  | .includes => (Text.tokens actual).contains expected
  | .dash => actual == expected || (expected.toList ++ ['-']).isPrefixOf actual.toList
  | .startsWith => expected.toList.isPrefixOf actual.toList
  | .endsWith => expected.toList.isSuffixOf actual.toList
  | .contains => occursIn expected.toList actual.toList

/-- A text with its ASCII letters in lower case. -/
def lowerCase (s : String) : String := String.ofList (s.toList.map Char.toLower)

namespace AttributeTest

/-- The name under which an element has the attribute; the star stands for no scope. -/
def fullName (t : AttributeTest) : String :=
  match t.scope with
  | none => t.name
  | some scope => if scope = "*" then t.name else scope ++ ":" ++ t.name

/-- Whether an element passes the test. -/
def acceptsElement (t : AttributeTest) (e : Element) : Bool :=
  match e.attribute? t.fullName with
  | none => false
  | some actual =>
    if t.ignoresCase then t.operator.test (lowerCase actual) (lowerCase t.value)
    else t.operator.test actual t.value

end AttributeTest

/-! ### Elements on their own -/

/-- Whether an element is in a pseudo-class, whatever surrounds it. -/
def PseudoClass.acceptsElement (e : Element) : PseudoClass → Bool
  | .firstChild => false
  | .lastChild => false
  | .empty => e.isEmpty

/-- Whether an element matches a simple selector, whatever surrounds it. -/
def Simple.acceptsElement (e : Element) : Simple → Bool
  | .element name => e.tag == name
  | .universal => true
  | .className name => e.hasClass name
  | .id name => e.attribute? "id" == some name
  | .attribute test => test.acceptsElement e
  | .pseudo kinds => kinds.all (·.acceptsElement e)

/-- Whether an element matches a compound selector, whatever surrounds it. -/
def Compound.acceptsElement (c : Compound) (e : Element) : Bool := c.all (·.acceptsElement e)

/-- Whether an element matches a selector, whatever surrounds it; only the alternatives that say
nothing about the elements above can match. -/
def acceptsElement (s : Selector) (e : Element) : Bool :=
  s.any fun complex =>
    match complex with
    | [compound] => Compound.acceptsElement compound e
    | _ => false

/-! ### Elements on a path -/

/-- Whether the first element of a path is in a pseudo-class; without an element above, it is
neither a first nor a last child. -/
def PseudoClass.accepts : PseudoClass → Path → Bool
  | .empty, step :: _ => step.element.isEmpty
  | .firstChild, step :: _ :: _ => step.place == some 0
  | .lastChild, step :: parent :: _ =>
    step.place.map (· + 1) == some parent.element.children.length
  | _, _ => false

/-- Whether the first element of a path matches a simple selector. -/
def Simple.accepts : Simple → Path → Bool
  | _, [] => false
  | .pseudo kinds, step :: above => kinds.all (·.accepts (step :: above))
  | s, step :: _ => s.acceptsElement step.element

/-- Whether the first element of a path matches a compound selector. -/
def Compound.accepts (c : Compound) (p : Path) : Bool := c.all (·.accepts p)

/-- Whether elements of a path match compound selectors, innermost first, each the nearest that
does. -/
def climbs : List Compound → Path → Bool
  | [], _ => true
  | _ :: _, [] => false
  | c :: cs, step :: above =>
    if c.accepts (step :: above) then climbs cs above else climbs (c :: cs) above

/-- Whether the first element of a path matches a complex selector. -/
def Complex.accepts (c : Complex) (p : Path) : Bool :=
  match c.reverse, p with
  | last :: outer, step :: above => last.accepts (step :: above) && climbs outer above
  | _, _ => false

/-- Whether the first element of a path matches a selector. -/
def accepts (s : Selector) (p : Path) : Bool := s.any (Complex.accepts · p)

end Selector

end Hypertext
