import Hypertext.Html.Grammar

/-!
# Trees that can be read back

`Element.IsReadable` describes the trees whose HTML reads back, up to `Element.merged`, the
tree without empty texts and with neighbouring texts joined, and `Element.IsRead` the trees that
reading gives.
-/

namespace Hypertext

namespace Html

/-- Whether a tag is one that reading gives: a lower-case letter and then lower-case letters,
digits, hyphens and colons. -/
def isTag (tag : String) : Bool :=
  match tag.toList with
  | [] => false
  | c :: cs => c.isLower && cs.all fun c => Grammar.isTagChar c && !c.isUpper

/-- Whether the name of an attribute is one that reading gives. -/
def isAttributeName (name : String) : Bool :=
  !name.isEmpty && name.toList.all Grammar.isAttributeChar

/-- What the closing tag of an element starts with. -/
def closer (tag : String) : List Char := '<' :: '/' :: tag.toList

/-- Whether a text holds the start of a closing tag, in any case. -/
def HoldsCloser (tag : String) (content : String) : Prop :=
  closer tag <:+: content.toList.map Char.toLower

/-- Puts a node in front of others; an empty text is dropped and a text joins one after it. -/
def joinText : Node → List Node → List Node
  | .text content, .text more :: ns => .text (content ++ more) :: ns
  | .text content, ns => if content.isEmpty then ns else .text content :: ns
  | n, ns => n :: ns

end Html

mutual

/-- The tree without empty texts and with neighbouring texts joined. -/
def Element.merged : Element → Element
  | ⟨tag, attributes, children⟩ => ⟨tag, attributes, Node.mergedAll children⟩

/-- The node without empty texts and with neighbouring texts joined inside it. -/
def Node.merged : Node → Node
  | .element e => .element e.merged
  | .text content => .text content

/-- Nodes without empty texts and with neighbouring texts joined. -/
def Node.mergedAll : List Node → List Node
  | [] => []
  | n :: ns => Html.joinText n.merged (Node.mergedAll ns)

end

mutual

/-- Whether the HTML of an element reads back: its tag and the names of its attributes are such
as reading gives, it is not void, and what is in a raw element is text without its closing tag. -/
def Element.IsReadable : Element → Prop
  | ⟨tag, attributes, children⟩ =>
    Html.isTag tag ∧ tag ∉ Html.Grammar.voidTags
      ∧ (∀ name ∈ attributes.names, Html.isAttributeName name)
      ∧ (tag ∈ Html.Grammar.rawTags →
        (∀ n ∈ children, n.isText) ∧ ¬Html.HoldsCloser tag (Node.textContents children))
      ∧ Node.AllReadable children

/-- Whether the HTML of a node reads back. -/
def Node.IsReadable : Node → Prop
  | .element e => e.IsReadable
  | .text _ => True

/-- Whether the HTML of each of several nodes reads back. -/
def Node.AllReadable : List Node → Prop
  | [] => True
  | n :: ns => n.IsReadable ∧ Node.AllReadable ns

end

mutual

/-- Whether an element is such as reading gives: a void one has no children, a raw one at most
one text without its closing tag, and no text is empty. -/
def Element.IsRead : Element → Prop
  | ⟨tag, attributes, children⟩ =>
    Html.isTag tag
      ∧ (∀ name ∈ attributes.names, Html.isAttributeName name)
      ∧ (tag ∈ Html.Grammar.voidTags → children = [])
      ∧ (tag ∈ Html.Grammar.rawTags →
        children = [] ∨ ∃ content, children = [.text content] ∧ ¬Html.HoldsCloser tag content)
      ∧ Node.AllRead children

/-- Whether a node is such as reading gives. -/
def Node.IsRead : Node → Prop
  | .element e => e.IsRead
  | .text content => content ≠ ""

/-- Whether each of several nodes is such as reading gives. -/
def Node.AllRead : List Node → Prop
  | [] => True
  | n :: ns => n.IsRead ∧ Node.AllRead ns

end

/-- Merging nodes is merging each of them and then joining neighbouring texts. -/
theorem Node.mergedAll_eq (ns : List Node) :
  Node.mergedAll ns = (ns.map Node.merged).foldr Html.joinText []
  := by
  induction ns with
  | nil => rfl
  | cons n ns ih => rw [Node.mergedAll, ih]; rfl

/-- A list of nodes is readable if each of them is. -/
theorem Node.allReadable_iff (ns : List Node) :
  Node.AllReadable ns ↔ ∀ n ∈ ns, n.IsReadable
  := by
  induction ns with
  | nil => simp [Node.AllReadable]
  | cons n ns ih => simp [Node.AllReadable, ih]

/-- A list of nodes is such as reading gives if each of them is. -/
theorem Node.allRead_iff (ns : List Node) :
  Node.AllRead ns ↔ ∀ n ∈ ns, n.IsRead
  := by
  induction ns with
  | nil => simp [Node.AllRead]
  | cons n ns ih => simp [Node.AllRead, ih]

end Hypertext
