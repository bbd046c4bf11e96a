import Hypertext.Error

/-!
# Trees from literals

`Literal.toElement` reads a literal as an element and `Literal.toNodes` as a list of nodes.  A
list describes an element: a tag or a string for the tag, a map for the attributes if one
follows, and the children, which may also be given as one list.  The first value that does not
fit is the error; a child is reported with its place among the children it is read with.
-/

namespace Hypertext

namespace Literal

/-- The tag that a literal stands for at the start of a list. -/
def tagName? : Literal → Option String
  | .tag name => some name
  | .str name => some name
  | _ => none

/-- The value that a literal stands for in an attribute. -/
def scalar? : Literal → Option String
  | .null => some ""
  | .bool value => some (if value then "true" else "false")
  | .int value => some (toString value)
  | .number value => some (Double.ofBits value.toBits).numeral
  | .str value => some value
  | .tag name => some name
  | .text content => some content
  | _ => none

/-- A named literal as an attribute. -/
def attributePair (p : String × Literal) : Except FormatError (String × String) :=
  match p.2.scalar? with
  | some value => .ok (p.1, value)
  | none => .error (.attributeValue p.1 p.2)

/-- The attributes that pairs describe; of several values of one name the last counts. -/
def toAttributes (pairs : List (String × Literal)) : Except FormatError Attributes := do
  return .ofList (← pairs.mapM attributePair)

mutual

/-- The element that a list describes. -/
def elementOfItems : List Literal → Except FormatError Element
  | [] => .error .emptyElement
  | first :: rest =>
    match first.tagName? with
    | none => .error (.noTag first)
    | some name =>
      match rest with
      | .map pairs :: content => do
        return ⟨name, ← toAttributes pairs, ← childrenOfContent content⟩
      | content => do
        return ⟨name, .empty, ← childrenOfContent content⟩

/-- The children that follow a tag and attributes: those of a single list that does not start
with a tag, or each literal by itself. -/
def childrenOfContent : List Literal → Except FormatError (List Node)
  | [] => .ok []
  | first :: rest =>
    match rest, first with
    | [], .list items =>
      if startsWithTag items then do return [.element (← elementOfItems items)]
      else childrenFrom 0 items
    | rest, first => do
      let n ← child 0 first
      let ns ← childrenFrom 1 rest
      return n :: ns

/-- The children that literals describe, the first of them at a place. -/
def childrenFrom (place : Nat) : List Literal → Except FormatError (List Node)
  | [] => .ok []
  | first :: rest => do
    let n ← child place first
    let ns ← childrenFrom (place + 1) rest
    return n :: ns

/-- The child that a literal at a place describes. -/
def child (place : Nat) : Literal → Except FormatError Node
  | .str value => .ok (.text value)
  | .text content => .ok (.text content)
  | .element e => .ok (.element e)
  | .list items => do return .element (← elementOfItems items)
  | .object asNode => .ok asNode
  | got => .error (.child place got)

end

/-- The element that a literal describes. -/
def toElement : Literal → Except FormatError Element
  | .list items => elementOfItems items
  | .element e => .ok e
  | .object (.element e) => .ok e
  | .object (.text content) => .error (.objectIsText content)
  | got => .error (.notElement got)

/-- The nodes that a literal describes: one for a list that starts with a tag, those of its items
for any other list. -/
def toNodes : Literal → Except FormatError (List Node)
  | .list items =>
    if startsWithTag items then do return [.element (← elementOfItems items)]
    else childrenFrom 0 items
  | .str value => .ok [.text value]
  | .text content => .ok [.text content]
  | .element e => .ok [.element e]
  | .object asNode => .ok [asNode]
  | got => .error (.notChildren got)

end Literal

end Hypertext
