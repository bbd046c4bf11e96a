import Hypertext.Selector
import Hypertext.Text.Digits

/-!
# Writing selectors

`Selector.print` writes a selector so that it reads back.  Alternatives are separated by a comma
and a space and compound selectors by a space; a universal selector at the start of a longer
compound selector is left out.  In names, a character that would end the name or change its
meaning gets a backslash, or is written by its number in hexadecimal with a space after it.
-/

namespace Hypertext

namespace Selector

/-- Whether a character is a control. -/
def isControl (c : Char) : Bool :=
  c.toNat < 0x20 || 0x7f ≤ c.toNat && c.toNat < 0xa0

/-- A character written by its number. -/
def printNumber (c : Char) : String := "\\" ++ Text.hexadecimal c ++ " "

/-- A character inside a name. -/
def printNameChar (c : Char) : String :=
  if isControl c then printNumber c
  else if c.isAlphanum || c = '-' || c = '_' || 0x80 ≤ c.toNat then String.singleton c
  else "\\" ++ String.singleton c

/-- The first character of an identifier, which may not be a digit. -/
def printStartChar (c : Char) : String :=
  if c.isDigit then printNumber c else printNameChar c

/-- A name. -/
def printName (name : String) : String := String.join (name.toList.map printNameChar)

/-- The characters of an identifier, which is a name that starts like one also after a hyphen. -/
def printIdentifierChars : List Char → List String
  | [] => []
  | [c] => [printStartChar c]
  | c :: d :: cs =>
    printStartChar c
      :: (if c = '-' then if d = '-' then "\\-" else printStartChar d else printNameChar d)
      :: cs.map printNameChar

/-- An identifier. -/
def printIdentifier (name : String) : String := String.join (printIdentifierChars name.toList)

/-- A character between double quotes. -/
def printStringChar (c : Char) : String :=
  if c = '"' || c = '\\' then "\\" ++ String.singleton c
  else if isControl c then printNumber c
  else String.singleton c

/-- A string between double quotes. -/
def printString (value : String) : String :=
  "\"" ++ String.join (value.toList.map printStringChar) ++ "\""

/-- What stands in front of an attribute for its scope. -/
def printScope : Option String → String
  | none => ""
  | some scope => (if scope = "*" then "*" else printIdentifier scope) ++ "|"

/-- The test of an attribute, without the brackets around it. -/
def AttributeTest.print (t : AttributeTest) : String :=
  printScope t.scope ++ printIdentifier t.name
    ++ (if t.operator = .present then "" else t.operator.symbol ++ printString t.value)
    ++ (t.flags.map (" " ++ printIdentifier ·)).getD ""

/-- A simple selector. -/
def Simple.print : Simple → String
  | .element name => printIdentifier name
  | .universal => "*"
  | .className name => "." ++ printIdentifier name
  | .id name => "#" ++ printName name
  | .attribute test => "[" ++ test.print ++ "]"
  | .pseudo kinds => String.join (kinds.map (":" ++ ·.name))

/-- The simple selectors of a compound selector that are written. -/
def Compound.shown : Compound → List Simple
  | .universal :: s :: rest => s :: rest
  | c => c

/-- A compound selector. -/
def Compound.print (c : Compound) : String := String.join (c.shown.map Simple.print)

/-- A complex selector. -/
def Complex.print (c : Complex) : String := " ".intercalate (c.map Compound.print)

/-- A selector. -/
def print (s : Selector) : String := ", ".intercalate (s.map Complex.print)

end Selector

end Hypertext
