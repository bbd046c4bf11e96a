/-!
# Selectors as they are written

The parts of a selector before it is asked which of them are supported.  Every combinator and
every simple selector comes with what was left of the text before it.
-/

namespace Hypertext.Selector

/-- The comparison in the test of an attribute, as it is written. -/
structure WrittenComparison where
  operator : String
  value : String
  flags : Option String
deriving DecidableEq, Repr

/-- A simple selector as it is written. -/
inductive WrittenSimple where
  | element (name : String)
  | universal
  | id (name : String)
  | className (name : String)
  | attribute (scope : Option String) (name : String) (comparison : Option WrittenComparison)
  | pseudo (isElement : Bool) (name : String) (argument : Option String)
deriving DecidableEq, Repr

/-- A compound selector as it is written, every part with what was left of the text before it. -/
abbrev WrittenCompound : Type := List (List Char × WrittenSimple)

/-- A complex selector as it is written: a compound selector, and combinators with the compound
selectors after them. -/
structure WrittenComplex where
  head : WrittenCompound
  tail : List ((List Char × Char) × WrittenCompound)
deriving DecidableEq, Repr

end Hypertext.Selector
