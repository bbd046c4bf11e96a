import Hypertext.Error
import Hypertext.Selector
import Hypertext.Selector.Grammar

/-!
# Reading selectors

`Selector.parse` reads a selector with the grammar and then checks what is written: of the
combinators only the descendant is supported, of the pseudo-classes only those of `PseudoClass`,
and of the signs and flags only those with a meaning.  The first part that is not supported is
the error.  A compound selector without the name of an element gets the universal selector, and
pseudo-classes next to each other become one part.
-/

namespace Hypertext

namespace Selector

/-- What is not supported, with what was left of the text before it. -/
abbrev Unsupported : Type := List Char × ParseFault

/-- The test of an attribute with a comparison, if its sign and its flags have a meaning. -/
def WrittenComparison.check (scope : Option String) (name : String) (c : WrittenComparison) :
    Except ParseFault AttributeTest :=
  match Operator.ofSymbol? c.operator with
  | none => .error (.operator c.operator)
  | some operator =>
    match c.flags with
    | none => .ok ⟨name, scope, operator, c.value, none⟩
    | some flags =>
      if flags = "i" ∨ flags = "s" then .ok ⟨name, scope, operator, c.value, some flags⟩
      else .error (.flag flags)

/-- The simple selector that is written, if it is supported. -/
def WrittenSimple.check : WrittenSimple → Except ParseFault Simple
  | .element name => .ok (.element name)
  | .universal => .ok .universal
  | .id name => .ok (.id name)
  | .className name => .ok (.className name)
  | .attribute scope name none => .ok (.attribute ⟨name, scope, .present, "", none⟩)
  | .attribute scope name (some comparison) =>
    (comparison.check scope name).map .attribute
  | .pseudo true name _ => .error (.pseudoElement name)
  | .pseudo false name (some _) => .error (.pseudoFunction name)
  | .pseudo false name none =>
    match PseudoClass.ofName? name with
    | some kind => .ok (.pseudo [kind])
    | none => .error (.pseudoClass name)

/-- Puts a simple selector in front of others; pseudo-classes join those that follow. -/
def joinSimple : Simple → List Simple → List Simple
  | .pseudo kinds, .pseudo more :: rest => .pseudo (kinds ++ more) :: rest
  | s, rest => s :: rest

/-- Simple selectors with the universal one in front unless they start with a type. -/
def withType : List Simple → Compound
  | .element name :: rest => .element name :: rest
  | .universal :: rest => .universal :: rest
  | simples => .universal :: simples

/-- The compound selector that is written, if all of it is supported. -/
def WrittenCompound.check (parts : WrittenCompound) : Except Unsupported Compound := do
  let simples ← parts.mapM fun p => p.2.check.mapError (p.1, ·)
  return withType (simples.foldr joinSimple [])

/-- The compound selector after a combinator, if the combinator and all of it are supported. -/
def checkLink (link : (List Char × Char) × WrittenCompound) : Except Unsupported Compound :=
  if link.1.2 = ' ' then WrittenCompound.check link.2
  else .error (link.1.1, .combinator link.1.2)

/-- The complex selector that is written, if all of it is supported. -/
def WrittenComplex.check (w : WrittenComplex) : Except Unsupported Complex := do
  let head ← WrittenCompound.check w.head
  let tail ← w.tail.mapM checkLink
  return head :: tail

/-- Reads a selector. -/
def parse (input : String) : Except ParseError Selector :=
  match Grammar.group input.toList with
  | .error rest => .error (.stopped .selector input rest)
  | .ok (written, rest) =>
    if rest.isEmpty then
      (written.mapM WrittenComplex.check).mapError fun u => .before .selector input u.1 u.2
    else .error (.before .selector input rest (.trailing rest))

end Selector

end Hypertext
