import Hypertext.Proofs.Html.Merged
import Hypertext.Proofs.Html.Raw

/-!
# Elements read back

What is written for a tree in which no text is empty and no two neighbours are texts is read as that
tree, if no element in it is void: `element_writeHtml`.  A void element is written with a closing
tag, but read without it, and there the reading of all elements around it stops:
`refuses_element`.
-/

namespace Hypertext.Html

open Grammar
open Reader (Ahead Refuses)

/-! ### What is written -/

/-- The HTML of an element is its opening tag, that of its children and its closing tag. -/
theorem toList_writeHtml_element (o : HtmlOptions) (e : Element) (s : List Char) :
  (e.writeHtml o).toList ++ s
    = openTagHtml e.tag e.attributes
      ++ ((Node.writeHtmls o (o.escapes e.tag) e.children).toList ++ (closeTagHtml e.tag ++ s))
  := by
  obtain ⟨tag, attributes, children⟩ := e
  simp [Element.writeHtml, openTagHtml, closeTagHtml, closer]

/-- The HTML of nodes is that of the first one and then that of the others. -/
theorem toList_writeHtmls_cons (o : HtmlOptions) (escapes : Bool) (n : Node) (ns : List Node)
    (s : List Char) :
  (Node.writeHtmls o escapes (n :: ns)).toList ++ s
    = (n.writeHtml o escapes).toList ++ ((Node.writeHtmls o escapes ns).toList ++ s)
  := by
  rw [Node.writeHtmls, String.toList_append, List.append_assoc]

/-- What is written for an element starts neither like a closing tag nor like a comment. -/
theorem writeHtml_eq_cons (o : HtmlOptions) {e : Element} (h : isTag e.tag) :
  ∃ c s, (e.writeHtml o).toList = '<' :: c :: s ∧ c ≠ '!' ∧ c ≠ '/'
  := by
  obtain ⟨c, cs, htag, hc, -⟩ := isTag_iff.mp h
  rw [← List.append_nil (e.writeHtml o).toList, toList_writeHtml_element, openTagHtml, htag]
  refine ⟨c, _, rfl, ?_, ?_⟩
  · rintro rfl
    cases hc
  · rintro rfl
    cases hc

/-! ### What content is not -/

/-- A tag is no comment. -/
theorem refuses_comment {c : Char} (hc : c ≠ '!') (s : List Char) :
  Refuses comment ('<' :: c :: s)
  := by
  apply Refuses.bind
  apply Reader.refuses_exactly
  simp [List.isPrefixOf, hc.symm]

/-- A comment starts with an angle bracket. -/
theorem refuses_comment_of_ahead {s : List Char} (h : Ahead (· ≠ '<') s) :
  Refuses comment s
  := by
  apply Refuses.bind
  apply Reader.refuses_exactly
  cases h with
  | nil => rfl
  | cons hc => simp [List.isPrefixOf, hc.symm]

/-- An element starts with an angle bracket. -/
theorem refuses_element_of_ahead {s : List Char} (h : Ahead (· ≠ '<') s) :
  Refuses element s
  := by
  rw [element_eq]
  apply Refuses.bind
  apply Refuses.bind
  apply Reader.refuses_char h

/-- A text does not start with an angle bracket. -/
theorem refuses_text {s : List Char} (h : Ahead (· = '<') s) :
  Refuses text s
  := by
  apply Refuses.bind
  apply Reader.refuses_run1
  apply h.mono
  rintro c rfl
  decide

/-! ### Content item by item -/

section

variable {s t u : List Char} {c : Char} {ns : List Node}

/-- An element in content is read before what comes after it. -/
theorem content_element {e : Element} (hc : c ≠ '!') (he : element ('<' :: c :: t) = .ok (e, s))
    (hs : content s = .ok (ns, u)) :
  content ('<' :: c :: t) = .ok (.element e :: ns, u)
  := by
  obtain ⟨v, hcomment⟩ := refuses_comment hc t
  have hitem : item ('<' :: c :: t) = .ok (.element e, s) := Reader.or_of_ok (Reader.bind_ok he)
  rw [content_of_item hcomment hitem, Reader.bind_ok hs]
  rfl

/-- Where an element cannot be read content ends. -/
theorem content_of_refuses (hc : c ≠ '!') (he : Refuses element ('<' :: c :: t)) :
  content ('<' :: c :: t) = .ok ([], '<' :: c :: t)
  := by
  obtain ⟨v, hcomment⟩ := refuses_comment hc t
  obtain ⟨w, hitem⟩ : Refuses item ('<' :: c :: t) := he.bind.or (refuses_text (.cons rfl))
  apply content_of_error hcomment hitem

/-- Content ends at what starts like a closing tag. -/
theorem content_slash (s : List Char) :
  content ('<' :: '/' :: s) = .ok ([], '<' :: '/' :: s)
  := by
  have hslash : '/' ≠ '!' := by decide
  apply content_of_refuses hslash
  rw [element_eq]
  apply Refuses.bind
  apply Reader.refuses_bind_of_ok (Reader.char_cons '<')
  apply Refuses.bind
  apply Refuses.bind
  apply Reader.refuses_satisfying (.cons (by decide))

/-- Content ends at a closing tag. -/
theorem content_closeTagHtml (tag : String) (s : List Char) :
  content (closeTagHtml tag ++ s) = .ok ([], closeTagHtml tag ++ s)
  := content_slash _

/-- A text in content is read before what comes after it. -/
theorem content_text {words : String} (hne : words ≠ "") (hs : Ahead (· = '<') s)
    (hcontent : content s = .ok (ns, u)) :
  content ((escapeText words).toList ++ s) = .ok (.text words :: ns, u)
  := by
  have hclean : ∀ c ∈ (escapeText words).toList, c ≠ '<' := by
    intro c hc
    have := escapeText_clean words c hc
    simp only [List.mem_cons, not_or] at this
    exact this.1
  have hahead : Ahead (· ≠ '<') ((escapeText words).toList ++ s) := by
    obtain ⟨c, cs, hcons⟩ := List.exists_cons_of_ne_nil (escapeText_ne_nil hne)
    rw [hcons] at hclean ⊢
    exact .cons (hclean c (.head cs))
  have hstop : Ahead (fun c => decide (c ≠ '<') = false) s := by
    apply hs.mono
    rintro c rfl
    decide
  have htext : text ((escapeText words).toList ++ s) = .ok (.text words, s) := by
    rw [text, Reader.bind_ok (Reader.run1_append (escapeText_ne_nil hne) (by simpa using hclean)
      hstop), decode_escapeText, String.ofList_toList]
    rfl
  obtain ⟨v, hcomment⟩ := refuses_comment_of_ahead hahead
  have hitem : item ((escapeText words).toList ++ s) = .ok (.text words, s) :=
    (Reader.or_of_refuses (refuses_element_of_ahead hahead).bind).trans htext
  rw [content_of_item hcomment hitem, Reader.bind_ok hcontent]
  rfl

end

/-! ### Children -/

section

variable {o : HtmlOptions} {s u : List Char} {ns ms : List Node}

/-- What is written for children starts with an angle bracket unless the first is a text. -/
theorem ahead_writeHtmls (htags : ∀ child, .element child ∈ ns → isTag child.tag)
    (hfirst : ∀ n ∈ ns.head?, ¬n.isText) (hs : Ahead (· = '<') s) :
  Ahead (· = '<') ((Node.writeHtmls o true ns).toList ++ s)
  := by
  cases ns with
  | nil => exact hs
  | cons n ns =>
    cases n with
    | text content => exact absurd rfl (hfirst (.text content) rfl)
    | element e =>
      obtain ⟨c, t, hwrite, -⟩ := writeHtml_eq_cons o (htags e (.head ns))
      rw [toList_writeHtmls_cons, Node.writeHtml, hwrite]
      exact .cons rfl

/-- A child is read before those after it. -/
theorem content_writeHtmls_cons {n : Node} (hjoined : Joined (n :: ns))
    (htags : ∀ child, .element child ∈ n :: ns → isTag child.tag)
    (hread : ∀ e, n = .element e → ∀ s, element ((e.writeHtml o).toList ++ s) = .ok (e, s))
    (hs : Ahead (· = '<') s)
    (hcontent : content ((Node.writeHtmls o true ns).toList ++ s) = .ok (ms, u)) :
  content ((Node.writeHtmls o true (n :: ns)).toList ++ s) = .ok (n :: ms, u)
  := by
  obtain ⟨hnonempty, hapart⟩ := hjoined
  obtain ⟨hfirst, -⟩ := apart_cons_iff.mp hapart
  rw [toList_writeHtmls_cons]
  cases n with
  | element e =>
    have he := hread e rfl ((Node.writeHtmls o true ns).toList ++ s)
    obtain ⟨c, t, hwrite, hc, -⟩ := writeHtml_eq_cons o (htags e (.head ns))
    rw [Node.writeHtml]
    rw [hwrite] at he ⊢
    apply content_element hc he hcontent
  | text content =>
    have hahead : Ahead (· = '<') ((Node.writeHtmls o true ns).toList ++ s) := by
      apply ahead_writeHtmls (fun child hchild => htags child (.tail _ hchild)) _ hs
      intro n hn htext
      exact hfirst n hn ⟨rfl, htext⟩
    apply content_text _ hahead hcontent
    rintro rfl
    exact hnonempty (.head ns)

/-- Children are read up to a closing tag if each element among them is read. -/
theorem content_writeHtmls (hjoined : Joined ns)
    (htags : ∀ child, .element child ∈ ns → isTag child.tag)
    (hread : ∀ child, .element child ∈ ns →
      ∀ s, element ((child.writeHtml o).toList ++ s) = .ok (child, s)) (tag : String) :
  content ((Node.writeHtmls o true ns).toList ++ (closeTagHtml tag ++ s))
    = .ok (ns, closeTagHtml tag ++ s)
  := by
  induction ns with
  | nil => apply content_closeTagHtml
  | cons n ns ih =>
    apply content_writeHtmls_cons hjoined htags _ (.cons rfl)
    · apply ih hjoined.tail
      · exact fun child hchild => htags child (.tail n hchild)
      · exact fun child hchild => hread child (.tail n hchild)
    · rintro e rfl
      exact hread e (.head ns)

end

/-! ### Elements -/

/-- What is read of an element once its opening tag is read. -/
theorem element_append {tag : String} {a : Attributes} (htag : isTag tag)
    (hnames : ∀ name ∈ a.names, isAttributeName name) (s : List Char) :
  element (openTagHtml tag a ++ s)
    = (if tag ∈ voidTags then return ⟨tag, a, []⟩
      else if tag ∈ rawTags then return ⟨tag, a, ← rawBody tag⟩
      else return ⟨tag, a, ← body tag⟩ : Reader Element) s
  := by
  rw [element_eq, Reader.bind_ok (openTag_append htag hnames s)]
  simp only [OpenTag.isLeaf, Bool.false_or, List.contains_iff_mem]
  rfl

/-- The text of a raw element is all of its children. -/
theorem eq_rawChildren {ns : List Node} (hjoined : Joined ns) (htext : ∀ n ∈ ns, n.isText) :
  ns = rawChildren (Node.textContents ns)
  := by
  obtain ⟨hnonempty, hapart⟩ := hjoined
  match ns with
  | [] => rfl
  | .element e :: ns => cases htext _ (.head ns)
  | [.text content] =>
    have hne : content ≠ "" := by
      rintro rfl
      exact hnonempty (.head [])
    simp [Node.textContents, Node.textContent, rawChildren, hne]
  | .text content :: n :: ns =>
    obtain ⟨hfirst, -⟩ := apart_cons_iff.mp hapart
    exact absurd ⟨rfl, htext n (.tail _ (.head ns))⟩ (hfirst n rfl)

/-- Texts whose characters are not replaced are written as they are. -/
theorem writeHtmls_of_isText (o : HtmlOptions) {ns : List Node} (htext : ∀ n ∈ ns, n.isText) :
  Node.writeHtmls o false ns = Node.textContents ns
  := by
  induction ns with
  | nil => rfl
  | cons n ns ih =>
    obtain ⟨hn, hns⟩ := List.forall_mem_cons.mp htext
    cases n with
    | element e => cases hn
    | text content =>
      rw [Node.writeHtmls, ih hns]
      rfl

section

variable {o : HtmlOptions} (ho : o.verbatim = rawTags) {e : Element}

include ho

/-- Where raw elements are written as they are, characters are replaced in all others. -/
theorem escapes_eq (tag : String) :
  o.escapes tag = decide (tag ∉ rawTags)
  := by
  simp [HtmlOptions.escapes, ho]

/-- A raw element is read whatever comes after it. -/
theorem element_raw (hwell : WellFormed e) (hjoined : Joined e.children)
    (hraw : e.tag ∈ rawTags) (s : List Char) :
  element ((e.writeHtml o).toList ++ s) = .ok (e, s)
  := by
  have hvoid := not_mem_voidTags_of_raw e.tag hraw
  have hescapes : o.escapes e.tag = false := by simp [escapes_eq ho, hraw]
  have hbody := rawBody_append hwell.tag (hwell.closer hraw) s
  rw [← eq_rawChildren hjoined (hwell.isText hraw)] at hbody
  rw [toList_writeHtml_element, hescapes, writeHtmls_of_isText o (hwell.isText hraw),
    element_append hwell.tag hwell.names, if_neg hvoid, if_pos hraw, Reader.bind_ok hbody,
    e.eta]
  rfl

/-- Of an element that is neither void nor raw the body is read, after its opening tag. -/
theorem element_plain (hwell : WellFormed e) (hvoid : e.tag ∉ voidTags) (hraw : e.tag ∉ rawTags)
    (s : List Char) :
  element ((e.writeHtml o).toList ++ s)
    = (do return ⟨e.tag, e.attributes, ← body e.tag⟩ : Reader Element)
      ((Node.writeHtmls o true e.children).toList ++ (closeTagHtml e.tag ++ s))
  := by
  have hescapes : o.escapes e.tag = true := by simp [escapes_eq ho, hraw]
  rw [toList_writeHtml_element, hescapes, element_append hwell.tag hwell.names, if_neg hvoid,
    if_neg hraw]

/-- What is written for an element is read as that element, whatever comes after it. -/
theorem element_writeHtml (hwell : e.Every WellFormed) (hvoid : e.IsVoidFree)
    (hjoined : e.Every (Joined ·.children)) (s : List Char) :
  element ((e.writeHtml o).toList ++ s) = .ok (e, s)
  := by
  induction e using Element.induct generalizing s with
  | step e ih =>
    by_cases hraw : e.tag ∈ rawTags
    · apply element_raw ho hwell.root hjoined.root hraw
    · have hbody : body e.tag ((Node.writeHtmls o true e.children).toList
          ++ (closeTagHtml e.tag ++ s)) = .ok (e.children, s) := by
        have hcontent := content_writeHtmls (o := o) (s := s) hjoined.root
          (fun child hchild => (hwell.child hchild).root.tag)
          (fun child hchild => ih child hchild (hwell.child hchild) (hvoid.child hchild)
            (hjoined.child hchild)) e.tag
        rw [body, Reader.bind_ok hcontent, Reader.bind_ok (closeTagOf_append hwell.root.tag s)]
        rfl
      rw [element_plain ho hwell.root hvoid.root hraw, Reader.bind_ok hbody, e.eta]
      rfl

end

/-- Of a void element the closing tag is left. -/
theorem element_void (o : HtmlOptions) {e : Element} (hwell : WellFormed e)
    (hvoid : e.tag ∈ voidTags) (s : List Char) :
  element ((e.writeHtml o).toList ++ s) = .ok (e, closeTagHtml e.tag ++ s)
  := by
  have heta := e.eta
  rw [hwell.void hvoid] at heta
  rw [toList_writeHtml_element, element_append hwell.tag hwell.names, if_pos hvoid,
    hwell.void hvoid, heta]
  rfl

/-! ### Where reading stops -/

/-- Where no closing tag can be read, none of a given element can be read. -/
theorem refuses_closeTagOf_of_refuses {s : List Char} (h : Refuses closeTag s) (tag : String) :
  Refuses (closeTagOf tag) s
  := by
  obtain ⟨t, ht⟩ := h
  use t
  rw [closeTagOf, ht]

section

variable {o : HtmlOptions} {s : List Char}

/-- Content ends at an element that cannot be read and after the void elements, neither of which
leaves the closing tag of an element that is not void. -/
theorem content_jams {e : Element} (hwell : WellFormed e)
    (hjam : e.tag ∈ voidTags ∨ Refuses element ((e.writeHtml o).toList ++ s)) :
  ∃ ns u, content ((e.writeHtml o).toList ++ s) = .ok (ns, u)
    ∧ ∀ tag ∉ voidTags, Refuses (closeTagOf tag) u
  := by
  obtain ⟨c, t, hwrite, hc, hslash⟩ := writeHtml_eq_cons o hwell.tag
  rcases hjam with hvoid | hrefuses
  · use [.element e], closeTagHtml e.tag ++ s
    constructor
    · have he := element_void o hwell hvoid s
      rw [hwrite] at he ⊢
      apply content_element hc he (content_closeTagHtml e.tag s)
    · intro tag htag
      apply refuses_closeTagOf hwell.tag
      rintro rfl
      exact htag hvoid
  · use [], (e.writeHtml o).toList ++ s
    rw [hwrite] at hrefuses ⊢
    constructor
    · apply content_of_refuses hc hrefuses
    · intro tag _
      apply refuses_closeTagOf_of_refuses
      apply Refuses.bind
      apply Reader.refuses_exactly
      simp [List.isPrefixOf, hslash.symm]

/-- Among children the first element that cannot be read, or is void, is where content ends: those
before it are read. -/
theorem content_writeHtmls_jams {ns : List Node} {bad : Element → Prop} (hjoined : Joined ns)
    (hwell : ∀ child, .element child ∈ ns → WellFormed child)
    (hread : ∀ child, .element child ∈ ns → ¬bad child →
      ∀ s, element ((child.writeHtml o).toList ++ s) = .ok (child, s))
    (hjam : ∀ child, .element child ∈ ns → bad child →
      child.tag ∈ voidTags ∨ ∀ s, Refuses element ((child.writeHtml o).toList ++ s))
    (hbad : ∃ child, .element child ∈ ns ∧ bad child) (hs : Ahead (· = '<') s) :
  ∃ ms u, content ((Node.writeHtmls o true ns).toList ++ s) = .ok (ms, u)
    ∧ ∀ tag ∉ voidTags, Refuses (closeTagOf tag) u
  := by
  induction ns with
  | nil =>
    obtain ⟨child, hchild, -⟩ := hbad
    cases hchild
  | cons n ns ih =>
    by_cases hn : ∃ e, n = .element e ∧ bad e
    · obtain ⟨e, rfl, he⟩ := hn
      rw [toList_writeHtmls_cons]
      apply content_jams (hwell e (.head ns))
      apply (hjam e (.head ns) he).imp_right
      intro hrefuses
      apply hrefuses
    · have hbad' : ∃ child, .element child ∈ ns ∧ bad child := by
        obtain ⟨child, hchild, hbad⟩ := hbad
        rcases List.mem_cons.mp hchild with heq | hchild
        · exact absurd ⟨child, heq.symm, hbad⟩ hn
        · exact ⟨child, hchild, hbad⟩
      obtain ⟨ms, u, hcontent, hu⟩ := ih hjoined.tail
        (fun child hchild => hwell child (.tail n hchild))
        (fun child hchild => hread child (.tail n hchild))
        (fun child hchild => hjam child (.tail n hchild)) hbad'
      use n :: ms, u, content_writeHtmls_cons hjoined (fun child hchild => (hwell child hchild).tag)
        ?_ hs hcontent
      rintro e rfl
      exact hread e (.head ns) fun he => hn ⟨e, rfl, he⟩

end

/-- An element with a void one in it is not read, unless it is void itself.  It is no raw element,
since it has an element among its children. -/
theorem refuses_element {o : HtmlOptions} (ho : o.verbatim = rawTags) {e : Element}
    (hwell : e.Every WellFormed) (hjoined : e.Every (Joined ·.children)) (hbad : ¬e.IsVoidFree)
    (hvoid : e.tag ∉ voidTags) (s : List Char) :
  Refuses element ((e.writeHtml o).toList ++ s)
  := by
  induction e using Element.induct generalizing s with
  | step e ih =>
    obtain ⟨child, hchild, hchildbad⟩ := Element.Every.exists_below hbad hvoid
    have hraw : e.tag ∉ rawTags := by
      intro hraw
      cases hwell.root.isText hraw _ hchild
    have hend : Ahead (· = '<') (closeTagHtml e.tag ++ s) := .cons rfl
    obtain ⟨ns, u, hcontent, hu⟩ := content_writeHtmls_jams (o := o) hjoined.root
      (fun child hchild => (hwell.child hchild).root)
      (fun child hchild hfree => element_writeHtml ho (hwell.child hchild)
        (Classical.not_not.mp hfree) (hjoined.child hchild))
      (fun child hchild hfree => by
        by_cases hchildvoid : child.tag ∈ voidTags
        · exact .inl hchildvoid
        · exact .inr (ih child hchild (hwell.child hchild) (hjoined.child hchild) hfree hchildvoid))
      ⟨child, hchild, hchildbad⟩ hend
    apply Reader.refuses_of_eq (element_plain ho hwell.root hvoid hraw s)
    apply Refuses.bind
    apply Reader.refuses_bind_of_ok hcontent
    apply (hu e.tag hvoid).bind

end Hypertext.Html
