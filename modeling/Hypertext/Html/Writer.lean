import Hypertext.Html.Entity
import Hypertext.Tree.Attribute

/-!
# Writing HTML

`Element.writeHtml` writes a tree as HTML: values stand between single quotes, and text is
escaped except in the elements whose text is verbatim.  `Element.toHtml` writes a document,
with a doctype in front and the encoding declared in the `head` if the options ask for that, and
`Element.toFragment` a piece of one.
-/

namespace Hypertext

/-- How trees are written as HTML. -/
structure HtmlOptions where
  doctype : Bool := true
  charset : String := "UTF-8"
  /-- The tags of the elements whose text is written as it is. -/
  verbatim : List String := ["script", "style"]

namespace HtmlOptions

/-- The options for a piece of a document. -/
def fragment : HtmlOptions := { doctype := false }

/-- Whether text in an element with a tag is escaped. -/
def escapes (o : HtmlOptions) (tag : String) : Bool := !o.verbatim.contains tag

end HtmlOptions

/-- The attributes of an element as they are written after its tag. -/
def Attributes.writeHtml (a : Attributes) : String :=
  String.join (a.pairs.map fun p => " " ++ p.1 ++ "='" ++ Html.escapeAttribute p.2 ++ "'")

mutual

/-- A tree as HTML. -/
def Element.writeHtml (o : HtmlOptions) : Element → String
  | ⟨tag, attributes, children⟩ =>
    "<" ++ tag ++ attributes.writeHtml ++ ">" ++ Node.writeHtmls o (o.escapes tag) children
      ++ "</" ++ tag ++ ">"

/-- A child as HTML, its text escaped or not. -/
def Node.writeHtml (o : HtmlOptions) (escapes : Bool) : Node → String
  | .element e => e.writeHtml o
  | .text content => if escapes then Html.escapeText content else content

/-- Children as HTML, their text escaped or not. -/
def Node.writeHtmls (o : HtmlOptions) (escapes : Bool) : List Node → String
  | [] => ""
  | n :: ns => n.writeHtml o escapes ++ Node.writeHtmls o escapes ns

end

/-- The HTML of nodes is that of each of them, one after the other. -/
theorem Node.writeHtmls_eq (o : HtmlOptions) (escapes : Bool) (ns : List Node) :
  Node.writeHtmls o escapes ns = String.join (ns.map (Node.writeHtml o escapes))
  := by
  rw [← String.toList_inj]
  induction ns with
  | nil => rfl
  | cons n ns ih => simp_all [Node.writeHtmls]

/-! ### Documents -/

namespace Element

/-- Whether a `meta` child declares an encoding. -/
def declaresCharset (e : Element) : Bool :=
  e.children.any fun child =>
    match child with
    | .element e => e.tag == "meta" && e.hasAttribute "charset"
    | .text _ => false

/-- The element that declares an encoding. -/
def charsetDeclaration (charset : String) : Element :=
  (ofTag "meta").setAttribute "charset" charset

/-- The child of an `html` element, with an encoding declared at its start if it is a `head`
without a declaration. -/
def declareInHead (charset : String) : Node → Node
  | .element e =>
    if e.tag = "head" && !e.declaresCharset then
      .element (e.setChildren (.element (charsetDeclaration charset) :: e.children))
    else .element e
  | .text content => .text content

/-- The document with an encoding declared in its `head`. -/
def withCharset (charset : String) (e : Element) : Element :=
  if e.tag = "html" then e.mapChildren (declareInHead charset) else e

/-- The doctype of a document. -/
def doctype : String := "<!DOCTYPE html>"

/-- A tree as a document or as a piece of one. -/
def toHtml (o : HtmlOptions) (e : Element) : String :=
  if o.doctype then doctype ++ (e.withCharset o.charset).writeHtml o else e.writeHtml o

/-- A tree as a piece of a document. -/
def toFragment (e : Element) : String := e.writeHtml .fragment

end Element

/-- A node as a document or as a piece of one; a text on its own is escaped. -/
def Node.toHtml (o : HtmlOptions) : Node → String
  | .element e => e.toHtml o
  | .text content => Html.escapeText content

end Hypertext
