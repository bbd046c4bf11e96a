import Hypertext.Html.WellFormed
import Hypertext.Html.Writer

/-!
# Declared encodings

A document is written with an encoding declared in its `head`.  The declaration is a void element,
and so is one that is there already: a document with a `head` is never free of void elements after
that, and all else is as it was before, as `withCharset_of_not_hasHead` and
`isVoidFree_withCharset_iff` say.
-/

namespace Hypertext

open Html (WellFormed)
open Html.Grammar (voidTags rawTags)

/-- An element that is neither void nor raw may have any children. -/
theorem Html.WellFormed.setChildren {e : Element} (h : WellFormed e) (hvoid : e.tag ∉ voidTags)
    (hraw : e.tag ∉ rawTags) (children : List Node) :
  WellFormed (e.setChildren children)
  where
  tag := h.tag
  names := h.names
  void hmem := absurd hmem hvoid
  isText hmem := absurd hmem hraw
  closer hmem := absurd hmem hraw

namespace Element

/-- Whether an element is a document with a `head`. -/
def HasHead (e : Element) : Prop :=
  e.tag = "html" ∧ ∃ child, .element child ∈ e.children ∧ child.tag = "head"

/-- The child of a document with an encoding declared in it if it is a `head`. -/
def withDeclaration (charset : String) (e : Element) : Element :=
  if e.tag = "head" && !e.declaresCharset then
    e.setChildren (.element (charsetDeclaration charset) :: e.children)
  else e

/-- Whether an element has a `meta` child with an attribute `charset`. -/
def HasDeclaration (e : Element) : Prop :=
  ∃ child, .element child ∈ e.children ∧ child.tag = "meta" ∧ "charset" ∈ child.attributes.names

section

variable {charset : String} {e : Element}

/-! ### Declarations -/

theorem names_charsetDeclaration (charset : String) :
  (charsetDeclaration charset).attributes.names = ["charset"]
  := rfl

theorem every_wellFormed_charsetDeclaration (charset : String) :
  (charsetDeclaration charset).Every WellFormed
  := by
  have htag : Html.isTag "meta" := by decide
  have hraw : "meta" ∉ rawTags := by decide
  refine .intro ⟨htag, ?_, ?_, ?_, ?_⟩ ?_
  · rw [names_charsetDeclaration]
    decide
  · intro _
    rfl
  · exact fun h => absurd h hraw
  · exact fun h => absurd h hraw
  · intro child hchild
    cases hchild

/-- Only a `head` gets a declaration. -/
theorem withDeclaration_of_ne (h : e.tag ≠ "head") :
  e.withDeclaration charset = e
  := by
  simp [withDeclaration, h]

/-- The program finds a declaration where there is one. -/
theorem declaresCharset_iff :
  e.declaresCharset ↔ e.HasDeclaration
  := by
  rw [declaresCharset, List.any_eq_true]
  constructor
  · rintro ⟨n, hn, htest⟩
    cases n with
    | text content => cases htest
    | element child =>
      rw [Bool.and_eq_true, beq_iff_eq, hasAttribute_iff_mem_names] at htest
      exact ⟨child, hn, htest⟩
  · rintro ⟨child, hchild, htest⟩
    refine ⟨.element child, hchild, ?_⟩
    rw [Bool.and_eq_true, beq_iff_eq, hasAttribute_iff_mem_names]
    exact htest

/-- Declaring an encoding does not change a tag. -/
theorem tag_withDeclaration (charset : String) (e : Element) :
  (e.withDeclaration charset).tag = e.tag
  := by
  rw [withDeclaration]
  split
  · rfl
  · rfl

/-- An element with a declaration gets no other. -/
theorem withDeclaration_of_hasDeclaration (h : e.HasDeclaration) :
  e.withDeclaration charset = e
  := by
  rw [withDeclaration, declaresCharset_iff.mpr h]
  simp

/-- A `head` without a declaration gets one in front of its children. -/
theorem withDeclaration_of_not_hasDeclaration (htag : e.tag = "head") (h : ¬e.HasDeclaration) :
  e.withDeclaration charset
    = e.setChildren (.element (charsetDeclaration charset) :: e.children)
  := by
  have hdeclares : e.declaresCharset = false := by
    rwa [← declaresCharset_iff, Bool.not_eq_true] at h
  simp [withDeclaration, htag, hdeclares]

/-- The declaration that is added is found by the check that guards the addition. -/
theorem hasDeclaration_withDeclaration (htag : e.tag = "head") :
  (e.withDeclaration charset).HasDeclaration
  := by
  by_cases h : e.HasDeclaration
  · rwa [withDeclaration_of_hasDeclaration h]
  · rw [withDeclaration_of_not_hasDeclaration htag h]
    refine ⟨charsetDeclaration charset, .head _, rfl, ?_⟩
    rw [names_charsetDeclaration]
    apply List.mem_singleton_self

/-- After an encoding is declared in a `head` there is a void element in it. -/
theorem not_isVoidFree_withDeclaration (h : e.tag = "head") :
  ¬(e.withDeclaration charset).IsVoidFree
  := by
  have hdeclaration : (e.withDeclaration charset).HasDeclaration := hasDeclaration_withDeclaration h
  obtain ⟨child, hchild, htag, -⟩ := hdeclaration
  intro hfree
  apply (hfree.child hchild).root
  rw [htag]
  decide

/-- With a declaration an element can be told from what is written for it, as without. -/
theorem every_wellFormed_withDeclaration (h : e.Every WellFormed) :
  (e.withDeclaration charset).Every WellFormed
  := by
  delta withDeclaration
  split
  · next hhead =>
    rw [Bool.and_eq_true, decide_eq_true_iff] at hhead
    refine .intro (h.root.setChildren ?_ ?_ _) ?_
    · rw [hhead.1]
      decide
    · rw [hhead.1]
      decide
    · intro child hchild
      rcases List.mem_cons.mp hchild with heq | hchild
      · obtain rfl := Node.element.inj heq
        apply every_wellFormed_charsetDeclaration
      · apply h.child hchild
  · exact h

/-! ### Documents with an encoding -/

/-- An element among the children of a document gets a declaration if it is a `head`. -/
theorem declareInHead_element (charset : String) (e : Element) :
  declareInHead charset (.element e) = .element (e.withDeclaration charset)
  := by
  rw [declareInHead, withDeclaration]
  split
  · rfl
  · rfl

/-- The elements among the children of a document are the old ones, declared. -/
theorem element_mem_declareInHead {child : Element} {ns : List Node} :
  .element child ∈ ns.map (declareInHead charset)
    ↔ ∃ e, .element e ∈ ns ∧ child = e.withDeclaration charset
  := by
  rw [List.mem_map]
  constructor
  · rintro ⟨n, hn, hchild⟩
    cases n with
    | text content => cases hchild
    | element e =>
      rw [declareInHead_element, Node.element.injEq] at hchild
      exact ⟨e, hn, hchild.symm⟩
  · rintro ⟨e, he, rfl⟩
    exact ⟨.element e, he, declareInHead_element charset e⟩

/-- With an encoding declared a tree can be told from what is written for it, as without. -/
theorem every_wellFormed_withCharset (h : e.Every WellFormed) :
  (e.withCharset charset).Every WellFormed
  := by
  delta withCharset
  split
  · next hhtml =>
    refine .intro (h.root.setChildren ?_ ?_ _) ?_
    · rw [hhtml]
      decide
    · rw [hhtml]
      decide
    · intro child hchild
      obtain ⟨child, hmem, rfl⟩ := element_mem_declareInHead.mp hchild
      apply every_wellFormed_withDeclaration (h.child hmem)
  · exact h

/-- Without a `head` no encoding is declared. -/
theorem withCharset_of_not_hasHead (h : ¬e.HasHead) :
  e.withCharset charset = e
  := by
  delta withCharset
  split
  · next hhtml =>
    have hchildren : e.children.map (declareInHead charset) = e.children := by
      apply (List.map_congr_left _).trans (List.map_id _)
      intro n hn
      cases n with
      | text content => rfl
      | element child =>
        rw [declareInHead_element, withDeclaration_of_ne]
        · rfl
        · intro hhead
          exact h ⟨hhtml, child, hn, hhead⟩
    rw [mapChildren, hchildren]
    apply e.eta
  · rfl

/-- With an encoding declared a tree is free of void elements if it was so before and is not a
document with a `head`. -/
theorem isVoidFree_withCharset_iff :
  (e.withCharset charset).IsVoidFree ↔ e.IsVoidFree ∧ ¬e.HasHead
  := by
  by_cases h : e.HasHead
  · constructor
    · intro hfree
      obtain ⟨hhtml, head, hhead, htag⟩ := h
      rw [withCharset, if_pos hhtml] at hfree
      apply absurd (hfree.child (element_mem_declareInHead.mpr ⟨head, hhead, rfl⟩))
      apply not_isVoidFree_withDeclaration htag
    · rintro ⟨-, hnone⟩
      exact absurd h hnone
  · rw [withCharset_of_not_hasHead h]
    simp [h]

end

end Element

end Hypertext
