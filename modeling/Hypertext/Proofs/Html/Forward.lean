import Hypertext.Html.Parser
import Hypertext.Proofs.Reader

/-!
# Progress through a document

Reading an element takes something from the front of the text, and content and documents go forward
through it.  The two readers that call each other go on with shorter texts, except that content
starts with an element of the same text; `element_content_induction` is the induction that fits
this.
-/

namespace Hypertext.Html

open Grammar
open Reader (remains remains_bind remains_suffix)

/-- Something holds of an element and of content, read from any text, if it holds of the element
whenever it holds of content of shorter texts, and of content whenever besides it holds of the
element in front. -/
theorem element_content_induction {p q : List Char → Prop}
    (helement : ∀ s, (∀ u, u.length < s.length → q u) → p s)
    (hcontent : ∀ s, (∀ u, u.length < s.length → q u) → p s → q s) (s : List Char) :
  p s ∧ q s
  := by
  induction hlength : s.length using Nat.strongRecOn generalizing s with
  | ind length ih =>
    have hshorter : ∀ u : List Char, u.length < s.length → q u :=
      fun u hu => (ih u.length (hlength ▸ hu) u rfl).2
    have hp := helement s hshorter
    exact ⟨hp, hcontent s hshorter hp⟩

section

variable {s t : List Char}

/-- An element takes at least one character. -/
theorem length_lt_of_element {e : Element} (h : element s = .ok (e, t)) :
  t.length < s.length
  := by
  obtain ⟨⟨e', t', hlength⟩, -, heq⟩ := eq_ok_of_map h
  obtain ⟨-, rfl⟩ := Prod.mk.inj heq
  exact hlength

/-- An item is an element, if one can be read, and else a text. -/
theorem item_eq_ok {n : Node} (h : item s = .ok (n, t)) :
  t.length < s.length
    ∧ ((∃ e, n = .element e ∧ element s = .ok (e, t)) ∨ text s = .ok (n, t))
  := by
  rcases Reader.or_eq_ok h with h | h
  · obtain ⟨e, u, he, hpure⟩ := Reader.bind_eq_ok h
    obtain ⟨rfl, rfl⟩ := Prod.mk.inj (Except.ok.inj hpure)
    exact ⟨length_lt_of_element he, .inl ⟨e, rfl, he⟩⟩
  · exact ⟨Reader.Consumes.shorter h, .inr h⟩

/-- Reads what belongs to an element after its opening tag. -/
def inside (tag : OpenTag) : Reader (List Node) :=
  if tag.isLeaf then return []
  else if rawTags.contains tag.name then rawBody tag.name
  else body tag.name

/-- An element that is read is an opening tag and what belongs to it. -/
theorem element_eq_ok_iff {e : Element} :
  element s = .ok (e, t)
    ↔ ∃ tag u ns, openTag s = .ok (tag, u) ∧ inside tag u = .ok (ns, t) ∧ tag.element ns = e
  := by
  have heq : element = (do
      let tag ← openTag
      return tag.element (← inside tag)) := by
    rw [element_eq]
    congr 1
    funext tag
    rw [inside]
    split
    · rfl
    · split <;> rfl
  rw [heq]
  constructor
  · intro h
    obtain ⟨tag, u, hopen, hrest⟩ := Reader.bind_eq_ok h
    obtain ⟨ns, v, hinside, hpure⟩ := Reader.bind_eq_ok hrest
    obtain ⟨rfl, rfl⟩ := Prod.mk.inj (Except.ok.inj hpure)
    use tag, u, ns, hopen, hinside
  · rintro ⟨tag, u, ns, hopen, hinside, rfl⟩
    rw [Reader.bind_ok hopen, Reader.bind_ok hinside]
    rfl

/-- An element goes forward if content of any shorter text does. -/
theorem remains_element (hcontent : ∀ u : List Char, u.length < s.length → remains (content u) <:+ u) :
  remains (element s) <:+ s
  := by
  rw [element_eq]
  apply remains_bind (remains_suffix s)
  intro tag t hopen
  split
  · apply remains_suffix
  · split
    · apply remains_suffix
    · have hbody : remains (body tag.name t) <:+ t := by
        apply remains_bind (hcontent t (Reader.Consumes.shorter hopen))
        intro ns u _
        apply remains_suffix
      apply remains_bind hbody
      intro ns u _
      apply remains_suffix

/-- Content goes forward if an element in front of it does, and content of any shorter text. -/
theorem remains_content (hcontent : ∀ u : List Char, u.length < s.length → remains (content u) <:+ u)
    (helement : remains (element s) <:+ s) :
  remains (content s) <:+ s
  := by
  cases hcomment : comment s with
  | ok p =>
    rw [content_of_comment hcomment]
    apply (hcontent p.2 (Reader.Consumes.shorter hcomment)).trans
    apply Reader.Forward.suffix_of_ok hcomment
  | error u =>
    cases hitem : item s with
    | error v =>
      rw [content_of_error hcomment hitem]
      exact List.suffix_rfl
    | ok p =>
      obtain ⟨hshorter, hcases⟩ := item_eq_ok hitem
      have hsuffix : p.2 <:+ s := by
        rcases hcases with ⟨e, -, he⟩ | htext
        · rwa [he] at helement
        · apply Reader.Forward.suffix_of_ok htext
      rw [content_of_item hcomment hitem]
      apply List.IsSuffix.trans _ hsuffix
      apply remains_bind (hcontent p.2 hshorter)
      intro ns u _
      apply remains_suffix

end

instance : element.Consumes where
  forward := Reader.forward_of_remains fun s =>
    (element_content_induction (fun _ => remains_element) (fun _ => remains_content) s).1
  shorter := length_lt_of_element

instance : content.Forward :=
  Reader.forward_of_remains fun s =>
    (element_content_induction (fun _ => remains_element) (fun _ => remains_content) s).2

instance : document.Forward := by
  unfold document
  infer_instance

end Hypertext.Html
