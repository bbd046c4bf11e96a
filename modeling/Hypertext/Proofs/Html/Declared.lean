import Hypertext.Proofs.Html.Charset
import Mathlib.Data.List.Forall2

/-!
# Documents with their encoding declared

A document is written with an encoding declared in each `head` that declares none.
`Element.Declared` says for one child of the root what becomes of it, and a `head` with a
declaration passes the check that guards the insertion, so that declaring an encoding once more
changes nothing, whichever encoding it is: `Element.withCharset_withCharset`.
-/

namespace Hypertext

/-! ### Options -/

mutual

/-- Of the options only the tags with verbatim text count for what is written of a tree. -/
theorem Element.writeHtml_congr {o o' : HtmlOptions} (h : o.verbatim = o'.verbatim) (e : Element) :
  e.writeHtml o = e.writeHtml o'
  := by
  match e with
  | ⟨tag, attributes, children⟩ =>
    have hescapes : o.escapes tag = o'.escapes tag := by
      rw [HtmlOptions.escapes, HtmlOptions.escapes, h]
    rw [Element.writeHtml, Element.writeHtml, hescapes, Node.writeHtmls_congr h _ children]

theorem Node.writeHtml_congr {o o' : HtmlOptions} (h : o.verbatim = o'.verbatim) (escapes : Bool)
    (n : Node) :
  n.writeHtml o escapes = n.writeHtml o' escapes
  := by
  match n with
  | .element e => apply Element.writeHtml_congr h e
  | .text content => rfl

theorem Node.writeHtmls_congr {o o' : HtmlOptions} (h : o.verbatim = o'.verbatim) (escapes : Bool)
    (ns : List Node) :
  Node.writeHtmls o escapes ns = Node.writeHtmls o' escapes ns
  := by
  match ns with
  | [] => rfl
  | n :: ns =>
    rw [Node.writeHtmls, Node.writeHtmls, Node.writeHtml_congr h _ n, Node.writeHtmls_congr h _ ns]

end

namespace Element

/-! ### Declarations -/

/-- What a child of a document becomes when an encoding is declared: a `head` without a declaration
gets one in front of its children, and everything else stays. -/
inductive Declared (charset : String) : Node → Node → Prop where
  | added {head : Element} (htag : head.tag = "head") (hnone : ¬head.HasDeclaration) :
    Declared charset (.element head)
      (.element ⟨head.tag, head.attributes,
        .element ⟨"meta", .ofList [("charset", charset)], []⟩ :: head.children⟩)
  | kept {n : Node} (h : ∀ head, n = .element head → head.tag = "head" → head.HasDeclaration) :
    Declared charset n n

section

variable {charset : String} {e : Element}

/-- A second declaration changes nothing. -/
theorem withDeclaration_withDeclaration (first second : String) (e : Element) :
  (e.withDeclaration first).withDeclaration second = e.withDeclaration first
  := by
  by_cases htag : e.tag = "head"
  · apply withDeclaration_of_hasDeclaration (hasDeclaration_withDeclaration htag)
  · rw [withDeclaration_of_ne htag, withDeclaration_of_ne htag]

/-- A child of a document becomes what it has to become. -/
theorem declared_declareInHead (charset : String) (n : Node) :
  Declared charset n (declareInHead charset n)
  := by
  cases n with
  | text content => exact .kept fun _ h => by cases h
  | element e =>
    rw [declareInHead_element]
    by_cases htag : e.tag = "head"
    · by_cases h : e.HasDeclaration
      · rw [withDeclaration_of_hasDeclaration h]
        apply Declared.kept
        intro head hhead _
        cases hhead
        exact h
      · rw [withDeclaration_of_not_hasDeclaration htag h]
        exact .added htag h
    · rw [withDeclaration_of_ne htag]
      apply Declared.kept
      intro head hhead hname
      cases hhead
      exact absurd hname htag

/-! ### Documents -/

/-- In anything but a document no encoding is declared. -/
theorem withCharset_of_ne (h : e.tag ≠ "html") :
  e.withCharset charset = e
  := if_neg h

/-- In a document an encoding is declared in each child that is a `head`. -/
theorem withCharset_of_eq (h : e.tag = "html") :
  e.withCharset charset = e.mapChildren (declareInHead charset)
  := if_pos h

/-- Once an encoding is declared in a document, every `head` has a declaration. -/
theorem hasDeclaration_of_mem_withCharset (h : e.tag = "html") {head : Element}
    (hmem : .element head ∈ (e.withCharset charset).children) (hhead : head.tag = "head") :
  head.HasDeclaration
  := by
  rw [withCharset_of_eq h] at hmem
  obtain ⟨own, -, rfl⟩ := element_mem_declareInHead.mp hmem
  rw [tag_withDeclaration] at hhead
  apply hasDeclaration_withDeclaration hhead

/-- A document with its encoding declared stays as it is, whatever encoding is declared then. -/
theorem withCharset_withCharset (first second : String) (e : Element) :
  (e.withCharset first).withCharset second = e.withCharset first
  := by
  by_cases h : e.tag = "html"
  · have htag : (e.mapChildren (declareInHead first)).tag = "html" := h
    rw [withCharset_of_eq h, withCharset_of_eq htag, mapChildren, mapChildren, setChildren,
      setChildren, List.map_map]
    congr 1
    apply List.map_congr_left
    intro n _
    cases n with
    | text content => rfl
    | element child =>
      rw [Function.comp_apply, declareInHead_element, declareInHead_element,
        withDeclaration_withDeclaration]
  · rw [withCharset_of_ne h, withCharset_of_ne h]

/-- A document is written with its doctype, and with the encoding declared. -/
theorem toHtml_eq (e : Element) (charset : String) (verbatim : List String) :
  e.toHtml { doctype := true, charset, verbatim }
    = doctype ++ (e.withCharset charset).writeHtml { doctype := true, charset, verbatim }
  := by
  rw [toHtml, if_pos rfl]

end

/-- A full document is the doctype and then the fragment form of the tree with an encoding declared.
That tree is the one that is written, unless its root is `html`: then each `head` among the children
of the root that has no declaration gets one in front of its children, and nothing else is
different.  Then every such `head` has a declaration, and so the tree is written as the same text
whatever encoding is to be declared in it. -/
theorem toHtml_withCharset (e : Element) (first second : String) (verbatim : List String) :
  (∀ charset, e.toHtml { doctype := true, charset := first, verbatim }
      = doctype ++ (e.withCharset first).toHtml { doctype := false, charset, verbatim })
    ∧ (e.tag ≠ "html" → e.withCharset first = e)
    ∧ (e.tag = "html" →
      (e.withCharset first).tag = e.tag
        ∧ (e.withCharset first).attributes = e.attributes
        ∧ List.Forall₂ (Declared first) e.children (e.withCharset first).children
        ∧ ∀ head, .element head ∈ (e.withCharset first).children → head.tag = "head" →
          head.HasDeclaration)
    ∧ (e.withCharset first).withCharset second = e.withCharset first
    ∧ (e.withCharset first).toHtml { doctype := true, charset := second, verbatim }
      = e.toHtml { doctype := true, charset := first, verbatim }
  := by
  refine ⟨?_, withCharset_of_ne, ?_, withCharset_withCharset first second e, ?_⟩
  · intro charset
    rw [toHtml_eq, toHtml, if_neg Bool.false_ne_true]
    congr 1
    apply writeHtml_congr
    rfl
  · intro htag
    refine ⟨?_, ?_, ?_, ?_⟩
    · rw [withCharset_of_eq htag]
      rfl
    · rw [withCharset_of_eq htag]
      rfl
    · rw [withCharset_of_eq htag]
      apply List.forall₂_map_right_iff.mpr
      apply List.forall₂_same.mpr
      intro n _
      apply declared_declareInHead
    · intro head hmem hhead
      apply hasDeclaration_of_mem_withCharset htag hmem hhead
  · rw [toHtml_eq, toHtml_eq, withCharset_withCharset]
    congr 1
    apply writeHtml_congr
    rfl

/-- The `head` without a declaration gets one, but not the one that has a declaration, nor one in
the body. -/
theorem toHtml_withCharset_heads :
  let bare : Element := ⟨"head", .empty, [.text "a"]⟩
  let declared (charset : String) (rest : List Node) : Element :=
    ⟨"head", .empty, .element ⟨"meta", .ofList [("charset", charset)], []⟩ :: rest⟩
  let root (head : Element) : Element :=
    ⟨"html", .empty, [.element head, .text "b", .element (declared "ASCII" []),
      .element ⟨"body", .empty, [.element bare]⟩]⟩
  ("body" ≠ "html" ∧ withCharset "UTF-8" ⟨"body", .empty, [.element bare]⟩
      = ⟨"body", .empty, [.element bare]⟩)
    ∧ ("html" = "html" ∧ (root bare).withCharset "UTF-8" = root (declared "UTF-8" [.text "a"])
      ∧ List.Forall₂ (Declared "UTF-8") (root bare).children
        (root (declared "UTF-8" [.text "a"])).children
      ∧ (declared "UTF-8" [.text "a"]).HasDeclaration)
    ∧ (root (declared "UTF-8" [.text "a"])).toHtml { charset := "ASCII" } = (root bare).toHtml {}
  := by
  intro bare declared root
  have hne : "body" ≠ "html" := by decide
  have hbody := (toHtml_withCharset ⟨"body", .empty, [.element bare]⟩ "UTF-8" "ASCII" []).2.1 hne
  have htree : (root bare).withCharset "UTF-8" = root (declared "UTF-8" [.text "a"]) := rfl
  obtain ⟨-, -, hhtml, -, hagain⟩ :=
    toHtml_withCharset (root bare) "UTF-8" "ASCII" ["script", "style"]
  obtain ⟨-, -, hchildren, hheads⟩ := hhtml rfl
  refine ⟨⟨hne, hbody⟩, ⟨rfl, htree, hchildren, ?_⟩, hagain⟩
  apply hheads _ _ rfl
  exact .head _

end Element

end Hypertext
