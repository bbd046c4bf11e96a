import Hypertext.Html.Literal
import Hypertext.Proofs.Html.RoundTrip
import Hypertext.Proofs.Literal.Canonical

/-!
# What is read as a literal

Reading a document as a literal and the literal as an element comes to the same as reading the
document as an element: the two readers stop at the same places, and where they do not, the literal
describes the element, as `agrees_element` says.  So a literal that was read can always be read as
an element, and `parseByLiteral_cases` says what every element of the tree is like.
-/

namespace Hypertext.Html

open Grammar
open Literal (Describes)
open Reader (Agrees agrees_eq)

/-! ### Elements -/

section

variable {s : List Char}

/-- The two readers of an opening tag differ in that one takes its attributes as a map. -/
theorem agrees_openTag :
  Agrees (fun written tag => tag = ⟨written.name, .ofList written.pairs, written.isClosed⟩)
    (writtenTag s) (openTag s)
  := by
  rw [writtenTag, openTag]
  apply (agrees_eq _ s).bind
  rintro _ _ s rfl
  apply (agrees_eq _ s).bind
  rintro name _ s rfl
  apply (agrees_eq _ s).bind
  rintro pairs _ s rfl
  apply (agrees_eq _ s).bind
  rintro _ _ s rfl
  apply (agrees_eq _ s).bind
  rintro isClosed _ s rfl
  exact .read rfl

/-- The literal of an element describes it, if the literals of its children describe them. -/
theorem describes_literal {tag : WrittenTag} {ls : List Literal} {ns : List Node}
    (h : List.Forall₂ Describes ls ns) :
  Describes (tag.literal ls) (.element ⟨tag.name, .ofList tag.pairs, ns⟩)
  := by
  apply Literal.describes_list h

/-- The literal of an element describes the element if this holds of the content of any shorter
text. -/
theorem agrees_element
    (hcontent : ∀ t : List Char, t.length < s.length →
      Agrees (List.Forall₂ Describes) (contentLiterals t) (content t)) :
  Agrees (fun l e => Describes l (.element e)) (elementLiteral s) (element s)
  := by
  rw [elementLiteral, elementLiteralFrom, element_eq]
  split
  · next t hwritten =>
    have hopen := agrees_openTag (s := s)
    rw [hwritten] at hopen
    rw [Reader.bind_error hopen.eq_error]
    exact .stopped
  · next tag t hwritten =>
    have hopen := agrees_openTag (s := s)
    rw [hwritten] at hopen
    obtain ⟨_, hopen, rfl⟩ := hopen.exists_ok
    rw [Reader.bind_ok hopen]
    have hleaf : tag.isLeaf = OpenTag.isLeaf ⟨tag.name, .ofList tag.pairs, tag.isClosed⟩ := rfl
    rw [hleaf]
    split
    · exact .read (describes_literal .nil)
    · dsimp only
      split
      · split
        · next u hraw =>
          rw [Reader.bind_error hraw]
          exact .stopped
        · next ns u hraw =>
          rw [Reader.bind_ok hraw]
          apply Agrees.read
          apply describes_literal
          rw [← Literal.ofChildren_eq]
          apply Literal.forall₂_describes_ofChildren
      · obtain ⟨ns, hread, hdescribes⟩ :=
          (hcontent t (Reader.Consumes.shorter hwritten)).exists_ok
        split
        · next v hclose =>
          have hbody : body tag.name t = .error v := by
            rw [body, Reader.bind_ok hread, Reader.bind_error hclose]
          rw [Reader.bind_error hbody]
          exact .stopped
        · next v hclose =>
          have hbody : body tag.name t = .ok (ns, v) := by
            rw [body, Reader.bind_ok hread, Reader.bind_ok hclose]
            rfl
          rw [Reader.bind_ok hbody]
          exact .read (describes_literal hdescribes)

/-- The literals of content describe its nodes if the literal of an element in front of it describes
that element, and if this holds of the content of any shorter text. -/
theorem agrees_content
    (hcontent : ∀ t : List Char, t.length < s.length →
      Agrees (List.Forall₂ Describes) (contentLiterals t) (content t))
    (helement : Agrees (fun l e => Describes l (.element e)) (elementLiteral s) (element s)) :
  Agrees (List.Forall₂ Describes) (contentLiterals s) (content s)
  := by
  rw [contentLiterals, contentLiteralsFrom]
  split
  · next t hcomment =>
    rw [content_of_comment hcomment]
    apply hcontent t (Reader.Consumes.shorter hcomment)
  · next u hcomment =>
    split
    · next l t ht hl =>
      rw [elementLiteral, hl] at helement
      obtain ⟨e, he, hdescribes⟩ := helement.exists_ok
      obtain ⟨ns, hread, hrest⟩ := (hcontent t ht).exists_ok
      have hitem : item s = .ok (.element e, t) := Reader.or_of_ok (Reader.bind_ok he)
      rw [content_of_item hcomment hitem, Reader.bind_ok hread]
      exact .read (.cons hdescribes hrest)
    · next v hl =>
      rw [elementLiteral, hl] at helement
      have hitem : item s = text s := Reader.or_of_error (Reader.bind_error helement.eq_error)
      split
      · next n t htext =>
        obtain ⟨ns, hread, hrest⟩ := (hcontent t (Reader.Consumes.shorter htext)).exists_ok
        rw [content_of_item hcomment (hitem.trans htext), Reader.bind_ok hread]
        exact .read (.cons (Literal.describes_ofChild n) hrest)
      · next w htext =>
        rw [content_of_error hcomment (hitem.trans htext)]
        exact .read .nil

end

/-- An element read as a literal describes the element. -/
theorem agrees_elementLiteral (s : List Char) :
  Agrees (fun l e => Describes l (.element e)) (elementLiteral s) (element s)
  := (element_content_induction (fun _ => agrees_element) (fun _ => agrees_content) s).1

/-! ### Documents -/

/-- A document read as a literal describes the document. -/
theorem agrees_document (s : List Char) :
  Agrees (fun l e => l.toElement = .ok e) (documentLiteral s) (document s)
  := by
  rw [documentLiteral, document]
  apply (agrees_eq _ s).bind
  rintro _ _ s rfl
  apply (agrees_elementLiteral s).bind
  intro l e s hdescribes
  apply (agrees_eq _ s).bind
  rintro _ _ s rfl
  exact .read hdescribes.toElement

/-- Reading by way of a literal fails with the same error, or it gives a literal of what is read. -/
theorem parseLiteral_cases (input : String) :
  (∃ e, parseLiteral input = .error e ∧ parse input = .error e)
    ∨ ∃ l root, parseLiteral input = .ok l ∧ parse input = .ok root ∧ l.toElement = .ok root
  := by
  have hagrees := agrees_document input.toList
  rw [parseLiteral, parse]
  cases hliteral : documentLiteral input.toList with
  | error rest =>
    rw [hliteral] at hagrees
    rw [hagrees.eq_error]
    exact .inl ⟨_, rfl, rfl⟩
  | ok p =>
    obtain ⟨l, rest⟩ := p
    rw [hliteral] at hagrees
    obtain ⟨root, hroot, hread⟩ := hagrees.exists_ok
    rw [hroot]
    dsimp only
    split
    · exact .inr ⟨l, root, rfl, rfl, hread⟩
    · exact .inl ⟨_, rfl, rfl⟩

/-- Reading a document either fails because the text cannot be read, or it gives a tree: the literal
that is read always describes an element.  Every element of the tree is such as `Element.IsRead`
says, and names each of its attributes once. -/
theorem parseByLiteral_cases (input : String) :
  (∃ e, parseByLiteral input = .error (.parse e) ∧ parse input = .error e)
    ∨ ∃ l root, parseLiteral input = .ok l ∧ l.toElement = .ok root
      ∧ parseByLiteral input = .ok root ∧ parse input = .ok root
      ∧ root.IsRead ∧ root.Every (·.attributes.names.Nodup)
  := by
  rw [parseByLiteral]
  rcases parseLiteral_cases input with ⟨e, hliteral, herror⟩ | ⟨l, root, hliteral, hroot, hread⟩
  · rw [hliteral]
    exact .inl ⟨e, rfl, herror⟩
  · have hnames : root.Every (·.attributes.names.Nodup) := by
      apply (isRead_of_parse hroot).every.mono
      intro e _
      exact e.attributes.nodup
    right
    refine ⟨l, root, hliteral, hread, ?_, hroot, isRead_of_parse hroot, hnames⟩
    rw [hliteral]
    simp only [Except.mapError, bind, Except.bind, hread]

end Hypertext.Html
