import Hypertext.Reader
import Hypertext.Selector.Written
import Hypertext.Text.Digits

/-!
# The grammar of selectors

The readers of this module take selectors as they are written, without asking what is supported;
`group` reads a list of alternatives.

Names are runs of letters, digits, hyphens, underscores, characters above ASCII and escapes.  An
escape is a backslash before up to six hexadecimal digits, which one space may end, or before any
other character.
-/

namespace Hypertext.Selector.Grammar

/-! ### Escapes -/

/-- Whether a character may end the digits of an escape. -/
def endsDigits (c : Char) : Bool := Reader.isSpace c || c = '\x0c'

/-- The character with a number; the replacement character stands for zero and for a number that
no character has. -/
def charOfNumber (n : Nat) : Char :=
  if n ≠ 0 ∧ n.isValidChar then Char.ofNat n else '\ufffd'

/-- Reads up to six hexadecimal digits, at least one. -/
def hexDigits : Reader (List Char) := fun s =>
  let digits := (s.take 6).takeWhile Text.isHexDigit
  if digits.isEmpty then .error s else .ok (digits, s.drop digits.length)

instance : hexDigits.Forward where
  suffix_of_ok {s t a} h := by
    simp only [hexDigits] at h
    split at h
    · simp at h
    · obtain ⟨-, rfl⟩ := Prod.mk.inj (Except.ok.inj h)
      apply List.drop_suffix
  suffix_of_error {s t} h := by
    simp only [hexDigits] at h
    split at h
    · obtain rfl := Except.error.inj h
      exact List.suffix_rfl
    · simp at h

instance : hexDigits.Consumes where
  forward := inferInstance
  shorter {s t a} h := by
    simp only [hexDigits] at h
    split at h
    · simp at h
    · next hd =>
      obtain ⟨-, rfl⟩ := Prod.mk.inj (Except.ok.inj h)
      have h₁ := List.length_pos_iff.2 (mt List.isEmpty_iff.2 hd)
      have h₂ := ((List.takeWhile_prefix Text.isHexDigit).trans (List.take_prefix 6 s)).length_le
      simp only [List.length_drop]
      omega

/-- Reads the number of a character and the space that may end it. -/
def codePoint : Reader Char := do
  let digits ← hexDigits
  let _ ← (Reader.satisfying endsDigits).option
  return charOfNumber (Text.numberOf 16 digits)

instance : codePoint.Consumes := by
  unfold codePoint
  infer_instance

/-- Reads an escape. -/
def escape : Reader Char := do
  Reader.char '\\'
  codePoint.or (Reader.satisfying fun _ => true)

instance : escape.Consumes := by
  unfold escape
  infer_instance

/-! ### Names and strings -/

/-- Whether a character may start an identifier as it is. -/
def isNameStart (c : Char) : Bool := c.isAlpha || c = '_' || 0x80 ≤ c.toNat

/-- Whether a character may stand in a name as it is. -/
def isNameChar (c : Char) : Bool := c.isAlphanum || c = '_' || c = '-' || 0x80 ≤ c.toNat

/-- Reads a character of a name. -/
def nameChar : Reader Char := escape.or (Reader.satisfying isNameChar)

instance : nameChar.Consumes := by
  unfold nameChar
  infer_instance

/-- Reads the first character of an identifier. -/
def nameStart : Reader Char := escape.or (Reader.satisfying isNameStart)

instance : nameStart.Consumes := by
  unfold nameStart
  infer_instance

/-- Reads a name. -/
def name : Reader String := do
  let cs ← Reader.many1 nameChar
  return String.ofList cs

instance : name.Consumes := by
  unfold name
  infer_instance

/-- Reads an identifier: a name that does not start with a digit, or with a hyphen and then
another one or a digit. -/
def identifier : Reader String := do
  let hyphen ← (Reader.satisfying (· = '-')).option
  let start ← nameStart
  let rest ← Reader.many nameChar
  return String.ofList (hyphen.toList ++ start :: rest)

instance : identifier.Consumes := by
  unfold identifier
  infer_instance

/-- Reads a character between quotes. -/
def stringChar (quote : Char) : Reader Char :=
  escape.or (Reader.satisfying fun c => c ≠ quote && c ≠ '\\')

instance (quote : Char) : (stringChar quote).Consumes := by
  unfold stringChar
  infer_instance

/-- Reads a string between quotes. -/
def quoted (quote : Char) : Reader String := do
  Reader.char quote
  let cs ← Reader.many (stringChar quote)
  Reader.char quote
  return String.ofList cs

instance (quote : Char) : (quoted quote).Consumes := by
  unfold quoted
  infer_instance

/-- Reads a string between double or single quotes. -/
def string : Reader String := (quoted '"').or (quoted '\'')

instance : string.Consumes := by
  unfold string
  infer_instance

/-! ### Simple selectors -/

/-- Reads the name of an element, or the star for any. -/
def typeSelector : Reader WrittenSimple :=
  Reader.or (do Reader.char '*'; return .universal) (do return .element (← identifier))

instance : typeSelector.Consumes := by
  unfold typeSelector
  infer_instance

/-- Reads the selector of an id. -/
def idSelector : Reader WrittenSimple := do
  Reader.char '#'
  return .id (← name)

instance : idSelector.Consumes := by
  unfold idSelector
  infer_instance

/-- Reads the selector of a class. -/
def classSelector : Reader WrittenSimple := do
  Reader.char '.'
  return .className (← identifier)

instance : classSelector.Consumes := by
  unfold classSelector
  infer_instance

/-- Reads what stands before a bar in front of an attribute. -/
def scope : Reader String := do
  let scope ← identifier.or (do Reader.char '*'; return "*")
  Reader.char '|'
  (Reader.char '=').notAhead
  return scope

instance : scope.Forward := by
  unfold scope
  infer_instance

/-- Reads the sign between an attribute and a value. -/
def operator : Reader String := do
  let first ← (Reader.satisfying fun c => ['~', '|', '^', '$', '*', '!'].contains c).option
  Reader.char '='
  return String.ofList (first.toList ++ ['='])

instance : operator.Forward := by
  unfold operator
  infer_instance

/-- Reads the flags of a comparison. -/
def flags : Reader String := do
  let flags ← identifier
  Reader.spaces
  return flags

instance : flags.Forward := by
  unfold flags
  infer_instance

/-- Reads the comparison in the test of an attribute. -/
def comparison : Reader WrittenComparison := do
  let operator ← operator
  Reader.spaces
  let value ← string.or name
  Reader.spaces
  let flags ← flags.option
  return ⟨operator, value, flags⟩

instance : comparison.Forward := by
  unfold comparison
  infer_instance

/-- Reads the test of an attribute, without the brackets around it. -/
def attributeTest : Reader WrittenSimple := do
  Reader.spaces
  let scope ← scope.option
  let name ← identifier
  Reader.spaces
  let comparison ← comparison.option
  return .attribute scope name comparison

instance : attributeTest.Forward := by
  unfold attributeTest
  infer_instance

/-- Reads the selector of an attribute. -/
def attributeSelector : Reader WrittenSimple := do
  Reader.char '['
  let test ← attributeTest
  Reader.char ']'
  return test

instance : attributeSelector.Consumes := by
  unfold attributeSelector
  infer_instance

/-- Reads the argument of a pseudo-class. -/
def argument : Reader String := do
  Reader.char '('
  let cs ← Reader.run (· ≠ ')')
  Reader.char ')'
  return String.ofList cs

instance : argument.Forward := by
  unfold argument
  infer_instance

/-- Reads a pseudo-class or a pseudo-element. -/
def pseudoSelector : Reader WrittenSimple := do
  Reader.char ':'
  let second ← (Reader.char ':').option
  let name ← identifier
  let argument ← argument.option
  return .pseudo second.isSome name argument

instance : pseudoSelector.Consumes := by
  unfold pseudoSelector
  infer_instance

/-- Reads a simple selector that is not the name of an element. -/
def subclassSelector : Reader WrittenSimple :=
  ((idSelector.or classSelector).or attributeSelector).or pseudoSelector

instance : subclassSelector.Consumes := by
  unfold subclassSelector
  infer_instance

/-! ### Compound and complex selectors -/

/-- Reads a compound selector: the name of an element with what follows it, or, without a name,
at least one other part. -/
def compound : Reader WrittenCompound :=
  Reader.atomic <| Reader.or
    (do
      let head ← typeSelector.located
      let tail ← Reader.many subclassSelector.located
      return head :: tail)
    (Reader.many1 subclassSelector.located)

instance : compound.Consumes := by
  unfold compound
  infer_instance

/-- Reads the sign of a combinator and the spaces after it. -/
def combinatorSign : Reader Char := do
  let sign ← Reader.satisfying fun c => ['>', '+', '~'].contains c
  Reader.spaces
  return sign

instance : combinatorSign.Consumes := by
  unfold combinatorSign
  infer_instance

/-- Reads a combinator: a sign among spaces, or spaces alone, which count as a space. -/
def combinator : Reader (List Char × Char) :=
  Reader.or
    (do Reader.spaces; combinatorSign.located)
    (Reader.located (do Reader.spaces1; return ' '))

instance : combinator.Consumes := by
  unfold combinator
  infer_instance

/-- Reads a combinator and the compound selector after it. -/
def link : Reader ((List Char × Char) × WrittenCompound) := do
  let combinator ← combinator
  let compound ← compound
  return (combinator, compound)

instance : link.Consumes := by
  unfold link
  infer_instance

/-- Reads a complex selector. -/
def complex : Reader WrittenComplex := do
  let head ← compound
  let tail ← Reader.many link
  return ⟨head, tail⟩

instance : complex.Consumes := by
  unfold complex
  infer_instance

/-- Reads a comma among spaces and the complex selector after it. -/
def alternative : Reader WrittenComplex := do
  Reader.spaces
  Reader.char ','
  Reader.spaces
  complex

instance : alternative.Consumes := by
  unfold alternative
  infer_instance

/-- Reads complex selectors with commas between them, among spaces. -/
def group : Reader (List WrittenComplex) := do
  Reader.spaces
  let first ← complex
  let rest ← Reader.many alternative
  Reader.spaces
  return first :: rest

instance : group.Forward := by
  unfold group
  infer_instance

end Hypertext.Selector.Grammar
