import Hypertext.Html.Readable
import Hypertext.Tree.Every
import Mathlib.Data.List.Chain

/-!
# Trees that can be written

`Html.WellFormed` describes elements that can be told from what is written for them, apart from the
end of a void one, and holds of all elements of a tree that can be read back and of one that was
read.  Whether the HTML of such a tree reads back, and as the tree that it was, depends on two more
conditions: `Element.IsVoidFree`, since the closing tag that is written for a void element is not
read, and `Element.IsApart`, since neighbouring texts are read as one.
-/

namespace Hypertext

namespace Html

/-- Whether the tag of an element and the names of its attributes are such as reading gives, it is
empty if it is void, and it holds text without its closing tag if it is raw. -/
structure WellFormed (e : Element) : Prop where
  tag : isTag e.tag
  names : ∀ name ∈ e.attributes.names, isAttributeName name
  void : e.tag ∈ Grammar.voidTags → e.children = []
  isText : e.tag ∈ Grammar.rawTags → ∀ n ∈ e.children, n.isText
  closer : e.tag ∈ Grammar.rawTags → ¬HoldsCloser e.tag (Node.textContents e.children)

/-- Whether no two neighbours among nodes are texts. -/
def Apart (ns : List Node) : Prop := ns.IsChain fun n n' => ¬(n.isText ∧ n'.isText)

/-- Whether no text among nodes is empty and no two neighbours are texts. -/
structure Joined (ns : List Node) : Prop where
  nonempty : .text "" ∉ ns
  apart : Apart ns

/-- Without the first of them, too, no text is empty and no two neighbours are texts. -/
theorem Joined.tail {n : Node} {ns : List Node} (h : Joined (n :: ns)) :
  Joined ns
  where
  nonempty hmem := h.nonempty (.tail n hmem)
  apart := h.apart.tail

end Html

namespace Element

/-- Whether no element of a tree is void. -/
def IsVoidFree (e : Element) : Prop := e.Every fun e => e.tag ∉ Html.Grammar.voidTags

/-- Whether no two neighbouring children of an element of a tree are texts. -/
def IsApart (e : Element) : Prop := e.Every fun e => Html.Apart e.children

/-! ### Readable trees -/

/-- All elements of a readable tree are readable. -/
theorem IsReadable.every {e : Element} (h : e.IsReadable) :
  e.Every IsReadable
  := by
  apply Every.of_child _ h
  rintro ⟨tag, attributes, children⟩ ⟨-, -, -, -, hchildren⟩ child hchild
  apply (Node.allReadable_iff children).mp hchildren (.element child) hchild

/-- A readable element can be told from what is written for it. -/
theorem IsReadable.wellFormed {e : Element} (h : e.IsReadable) :
  Html.WellFormed e
  := by
  obtain ⟨tag, attributes, children⟩ := e
  obtain ⟨htag, hvoid, hnames, hraw, -⟩ := h
  exact ⟨htag, hnames, fun h => absurd h hvoid, fun h => (hraw h).1, fun h => (hraw h).2⟩

theorem IsReadable.not_void {e : Element} (h : e.IsReadable) :
  e.tag ∉ Html.Grammar.voidTags
  := by
  obtain ⟨tag, attributes, children⟩ := e
  obtain ⟨-, hvoid, -⟩ := h
  exact hvoid

/-- All elements of a readable tree can be told from what is written for them. -/
theorem IsReadable.every_wellFormed {e : Element} (h : e.IsReadable) :
  e.Every Html.WellFormed
  := by
  apply h.every.mono
  intro e he
  exact he.wellFormed

/-- No element of a readable tree is void. -/
theorem IsReadable.isVoidFree {e : Element} (h : e.IsReadable) :
  e.IsVoidFree
  := by
  apply h.every.mono
  intro e he
  exact he.not_void

/-! ### Trees that were read -/

/-- All elements of a tree that was read are such as reading gives. -/
theorem IsRead.every {e : Element} (h : e.IsRead) :
  e.Every IsRead
  := by
  apply Every.of_child _ h
  rintro ⟨tag, attributes, children⟩ ⟨-, -, -, -, hchildren⟩ child hchild
  apply (Node.allRead_iff children).mp hchildren (.element child) hchild

/-- An element that was read can be told from what is written for it. -/
theorem IsRead.wellFormed {e : Element} (h : e.IsRead) :
  Html.WellFormed e
  := by
  obtain ⟨tag, attributes, children⟩ := e
  obtain ⟨htag, hnames, hvoid, hraw, -⟩ := h
  refine ⟨htag, hnames, hvoid, ?_, ?_⟩
  · intro h n hn
    obtain rfl | ⟨content, rfl, -⟩ := hraw h
    · cases hn
    · rw [List.mem_singleton.mp hn]
      rfl
  · intro h
    obtain rfl | ⟨content, rfl, hcloser⟩ := hraw h
    · intro hholds
      have hlength := hholds.length_le
      simp [Html.closer, Node.textContents] at hlength
    · simpa [Node.textContents, Node.textContent] using hcloser

/-- No text that was read is empty. -/
theorem IsRead.nonempty {e : Element} (h : e.IsRead) :
  .text "" ∉ e.children
  := by
  obtain ⟨tag, attributes, children⟩ := e
  obtain ⟨-, -, -, -, hchildren⟩ := h
  intro hempty
  apply (Node.allRead_iff children).mp hchildren (.text "") hempty rfl

/-- All elements of a tree that was read can be told from what is written for them. -/
theorem IsRead.every_wellFormed {e : Element} (h : e.IsRead) :
  e.Every Html.WellFormed
  := by
  apply h.every.mono
  intro e he
  exact he.wellFormed

/-- In a tree that was read no text is empty. -/
theorem IsRead.every_nonempty {e : Element} (h : e.IsRead) :
  e.Every fun e => .text "" ∉ e.children
  := by
  apply h.every.mono
  intro e he
  exact he.nonempty

end Element

end Hypertext
