import Hypertext.Error
import Hypertext.Text.Blank

/-!
# Attributes and classes of elements

The attributes of an element are read, set and removed by name.  The attribute `class` also
counts as a list of words, its tokens: `addClass` adds words that are not in the list yet and
`removeClass` takes a word out, and neither touches another attribute.
-/

namespace Hypertext

namespace Element

/-- The value of an attribute. -/
def attribute? (e : Element) (name : String) : Option String := e.attributes.get? name

/-- Whether an attribute is there. -/
def hasAttribute (e : Element) (name : String) : Bool := e.attributes.contains name

/-- The element with an attribute set. -/
def setAttribute (e : Element) (name value : String) : Element :=
  e.setAttributes (e.attributes.insert name value)

/-- The element without an attribute. -/
def removeAttribute (e : Element) (name : String) : Element :=
  e.setAttributes (e.attributes.erase name)

/-- The element with an attribute set, or removed if there is no value. -/
def updateAttribute (e : Element) (name : String) : Option String → Element
  | some value => e.setAttribute name value
  | none => e.removeAttribute name

/-- An element has an attribute if it has a value of that name. -/
theorem hasAttribute_eq_isSome (e : Element) (name : String) :
  e.hasAttribute name = (e.attribute? name).isSome
  := rfl

/-- An element has the attributes that are named in its map. -/
theorem hasAttribute_iff_mem_names (e : Element) (name : String) :
  e.hasAttribute name ↔ name ∈ e.attributes.names
  := e.attributes.contains_iff_mem_names name

/-- Setting an attribute changes no other. -/
theorem attribute?_setAttribute (e : Element) (name value other : String) :
  (e.setAttribute name value).attribute? other
    = if other = name then some value else e.attribute? other
  := e.attributes.get?_insert name value other

/-- Removing an attribute changes no other. -/
theorem attribute?_removeAttribute (e : Element) (name other : String) :
  (e.removeAttribute name).attribute? other = if other = name then none else e.attribute? other
  := e.attributes.get?_erase name other

/-! ### Calls by position -/

/-- The answer to a call with arguments by position: a value that was read or an element that
was updated. -/
inductive AttributeAnswer where
  | value (value : Option String)
  | updated (e : Element)

/-- A name alone reads an attribute and a name with a value updates it; a name has to be there,
and nothing may follow the value. -/
def attributeCall (e : Element) : List (Option String) → Except Error AttributeAnswer
  | [some name] => .ok (.value (e.attribute? name))
  | [some name, value] => .ok (.updated (e.updateAttribute name value))
  | [none] | [none, _] => .error (.illegalRequest .noAttributeName)
  | arguments => .error (.arity arguments.length)

/-! ### Classes -/

/-- The words of the attribute `class`, in order. -/
def classList (e : Element) : List String :=
  ((e.attribute? "class").map Text.tokens).getD []

/-- Whether a word is in the class list. -/
def hasClass (e : Element) (name : String) : Bool := e.classList.contains name

/-- A list with the items of another one added at its end, except those it has already. -/
def appendNew (list items : List String) : List String :=
  items.foldl (fun list item => if list.contains item then list else list ++ [item]) list

/-- The element with the class list written anew. -/
def setClassList (e : Element) (list : List String) : Element :=
  e.setAttribute "class" (" ".intercalate list)

/-- The element with words added to its class list; a list with nothing new keeps its spelling. -/
def addClass (e : Element) (names : String) : Element :=
  let list := appendNew e.classList (Text.tokens names)
  if list.length = e.classList.length && e.hasAttribute "class" then e else e.setClassList list

/-- The element with a word taken out of its class list; a list that becomes empty goes. -/
def removeClass (e : Element) (name : String) : Element :=
  if e.hasAttribute "class" then
    let list := e.classList.filter (· ≠ name)
    if list.isEmpty then e.removeAttribute "class" else e.setClassList list
  else e

/-- The element with attributes added: a class list is merged, any other value is set. -/
def mergeAttributes (e : Element) (a : Attributes) : Element :=
  a.pairs.foldl
    (fun e p => if p.1 = "class" then e.addClass p.2 else e.setAttribute p.1 p.2) e

end Element

/-- A node with an attribute set; a text carries no attributes. -/
def Node.setAttribute (name value : String) : Node → Except Error Element
  | .element e => .ok (e.setAttribute name value)
  | .text content => .error (.illegalRequest (.attributeOnText name content))

end Hypertext
