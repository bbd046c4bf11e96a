import Hypertext.Decimal.Positional
import Hypertext.Tree.Display

/-!
# Literals

A `Literal` is a loose description of a tree, made of the values that a program has at hand.  A
list that starts with a tag describes an element: the tag, a map of attributes if one follows,
and the children.  `Literal.ofElement` is the canonical description of an element, and
`Literal.inspect` writes a literal on one line.
-/

namespace Hypertext

/-- A loose description of a tree. -/
inductive Literal where
  | null
  | bool (value : Bool)
  | int (value : Int)
  | number (value : Float)
  | str (value : String)
  /-- The name of an element. -/
  | tag (name : String)
  /-- Attributes, in order. -/
  | map (pairs : List (String × Literal))
  | list (items : List Literal)
  | element (e : Element)
  | text (content : String)
  /-- A value of the caller's own, known by the node that stands for it. -/
  | object (asNode : Node)

namespace Literal

instance : Inhabited Literal := ⟨.null⟩

/-- Whether a list of literals starts with a tag. -/
def startsWithTag : List Literal → Bool
  | .tag _ :: _ => true
  | _ => false

/-- Whether a literal is a list that starts with a tag. -/
def describesElement : Literal → Bool
  | .list items => startsWithTag items
  | _ => false

/-- The integer that a machine word is when its highest bit counts as a sign. -/
def ofWord (word : UInt64) : Literal := .int word.toInt64.toInt

/-- The attributes of an element as a literal. -/
def ofAttributes (a : Attributes) : Literal :=
  .map (a.pairs.map fun p => (p.1, .str p.2))

/-- A node as a literal. -/
def ofNode : Node → Literal
  | .element e => .element e
  | .text content => .text content

/-- A list of literals as a literal. -/
def ofList (items : List Literal) : Literal := .list items

/-- A literal that may be absent. -/
def ofOption (item : Option Literal) : Literal := item.getD .null

mutual

/-- The canonical description of an element: tag, attributes and list of children. -/
def ofElement : Element → Literal
  | ⟨name, attributes, children⟩ =>
    .list [.tag name, ofAttributes attributes, .list (ofChildren children)]

/-- The canonical description of a child, in which a text is a string. -/
def ofChild : Node → Literal
  | .element e => ofElement e
  | .text content => .str content

/-- The canonical descriptions of the children of an element. -/
def ofChildren : List Node → List Literal
  | [] => []
  | n :: ns => ofChild n :: ofChildren ns

end

/-- The literals of nodes are those of each of them. -/
theorem ofChildren_eq (ns : List Node) :
  ofChildren ns = ns.map ofChild
  := by
  induction ns with
  | nil => rfl
  | cons n ns ih => rw [ofChildren, ih, List.map_cons]

/-! ### Literals on one line -/

mutual

/-- A literal on one line. -/
def inspect : Literal → String
  | .null => "nil"
  | .bool value => if value then "true" else "false"
  | .int value => toString value
  | .number value => (Double.ofBits value.toBits).numeral
  | .str value => Text.quote value
  | .tag name => ":" ++ name
  | .map pairs => "\x7b" ++ ", ".intercalate (inspectPairs pairs) ++ "\x7d"
  | .list items => bracketed (inspectItems items)
  | .element e => e.inspect
  | .text content => Text.quote content
  | .object asNode => asNode.inspect

/-- The pairs of a map, each on one line. -/
def inspectPairs : List (String × Literal) → List String
  | [] => []
  | (name, value) :: rest => (Text.quote name ++ "=>" ++ value.inspect) :: inspectPairs rest

/-- The items of a list, each on one line. -/
def inspectItems : List Literal → List String
  | [] => []
  | item :: rest => item.inspect :: inspectItems rest

end

/-- Pairs are shown one by one, each with an arrow in it. -/
theorem inspectPairs_eq (pairs : List (String × Literal)) :
  inspectPairs pairs = pairs.map fun p => Text.quote p.1 ++ "=>" ++ p.2.inspect
  := by
  induction pairs with
  | nil => rfl
  | cons p ps ih => rw [inspectPairs, ih, List.map_cons]

/-- Items are shown one by one. -/
theorem inspectItems_eq (items : List Literal) :
  inspectItems items = items.map inspect
  := by
  induction items with
  | nil => rfl
  | cons item items ih => rw [inspectItems, ih, List.map_cons]

end Literal

end Hypertext
