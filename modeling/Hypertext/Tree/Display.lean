import Hypertext.Text.Line
import Hypertext.Text.Quoted
import Hypertext.Tree

/-!
# Trees on one line and on several

`inspect` writes a tree on one line as `H[:p, \x7b"id"=>"x"\x7d, ["text"]]`, without the attributes
or the children if there are none.  `layout` writes the same with each node on a line of its
own, two spaces further in for each level of depth: at every level, all that is written behind the
tag is moved in, and its first line is moved back.
-/

namespace Hypertext

/-- The pairs of an attribute map on one line, in stored order. -/
def Attributes.inspect (a : Attributes) : String :=
  "\x7b" ++ ", ".intercalate (a.pairs.map fun p => Text.quote p.1 ++ "=>" ++ Text.quote p.2)
    ++ "\x7d"

/-- A list of written values between brackets. -/
def bracketed (items : List String) : String :=
  "[" ++ ", ".intercalate items ++ "]"

/-- What is written for attributes behind a tag: nothing if there are none. -/
def Attributes.behindTag (a : Attributes) : String :=
  if a.isEmpty then "" else ", " ++ a.inspect

/-- What stands in front of an element's children: its tag, and its attributes if it has any. -/
def Element.head (e : Element) : String := "H[:" ++ e.tag ++ e.attributes.behindTag

mutual

/-- A tree on one line. -/
def Element.inspect : Element → String
  | ⟨tag, attributes, children⟩ =>
    Element.head ⟨tag, attributes, children⟩
      ++ (if children.isEmpty then "" else ", " ++ bracketed (Node.inspects children)) ++ "]"

/-- A tree on one line. -/
def Node.inspect : Node → String
  | .element e => e.inspect
  | .text content => Text.quote content

/-- Several trees, each on one line. -/
def Node.inspects : List Node → List String
  | [] => []
  | n :: ns => n.inspect :: Node.inspects ns

end

mutual

/-- A tree with each node on a line of its own. -/
def Element.layout : Element → String
  | ⟨tag, attributes, children⟩ =>
    let behind :=
      attributes.behindTag
        ++ if children.isEmpty then "]"
          else ", [\n" ++ ",\n".intercalate (Node.layouts children) ++ "]]"
    "H[:" ++ tag ++ Text.trim (Text.indent 2 behind)

/-- A tree with each node on a line of its own. -/
def Node.layout : Node → String
  | .element e => e.layout
  | .text content => Text.quote content

/-- Several trees, each laid out. -/
def Node.layouts : List Node → List String
  | [] => []
  | n :: ns => n.layout :: Node.layouts ns

end

end Hypertext
