import Hypertext.Proofs.Html.Forward
import Hypertext.Proofs.Html.Raw

/-!
# What reading gives

Every element that is read is such as `Element.IsRead` says: `gives_element`.  The proof follows the
grammar, a lemma for each reader, up to the two readers that call each other, where it is by
`element_content_induction`.
-/

namespace Hypertext.Html

open Grammar
open Reader (Gives)

/-! ### Tags -/

/-- A name that is read is a tag. -/
theorem gives_tagName :
  tagName.Gives fun tag => isTag tag
  := by
  rw [tagName]
  refine (Reader.gives_satisfying _).bind ?_
  intro c hc
  refine (Reader.gives_run _).bind ?_
  intro cs hcs
  apply Reader.gives_pure
  rw [isTag_iff]
  use c.toLower, cs.map Char.toLower
  rw [String.toList_ofList]
  refine ⟨rfl, (Char.isLower_toLower_eq_isAlpha c).trans hc, ?_⟩
  intro d hd
  obtain ⟨d, hmem, rfl⟩ := List.mem_map.mp hd
  exact ⟨(isTagChar_toLower d).trans (hcs d hmem), Char.isUpper_toLower_eq_false d⟩

/-- An attribute that is read has a name that can be read back. -/
theorem gives_tagAttribute :
  tagAttribute.Gives fun p => isAttributeName p.1
  := by
  rw [tagAttribute]
  apply Reader.gives_bind
  intro _
  refine (Reader.gives_run1 _).bind ?_
  rintro name ⟨hne, hname⟩
  apply Reader.gives_bind
  intro value
  apply Reader.gives_pure
  rw [isAttributeName_iff, String.toList_ofList]
  exact ⟨hne, hname⟩

/-- An opening tag that is read has a tag and attributes that can be read back. -/
theorem gives_openTag :
  openTag.Gives fun tag => isTag tag.name ∧ ∀ name ∈ tag.attributes.names, isAttributeName name
  := by
  rw [openTag]
  apply Reader.gives_bind
  intro _
  refine gives_tagName.bind ?_
  intro tag htag
  refine gives_tagAttribute.many.bind ?_
  intro ps hps
  apply Reader.gives_bind
  intro _
  apply Reader.gives_bind
  intro _
  apply Reader.gives_pure
  refine ⟨htag, ?_⟩
  intro name hname
  obtain ⟨p, hp, rfl⟩ := List.mem_map.mp ((Attributes.mem_names_ofList ps name).mp hname)
  apply hps p hp

/-! ### Elements -/

/-- A text that is read is not empty. -/
theorem gives_text :
  text.Gives Node.IsRead
  := by
  rw [text]
  refine (Reader.gives_run1 _).bind ?_
  rintro cs ⟨hne, -⟩
  apply Reader.gives_pure
  intro hempty
  apply decode_ne_nil hne
  rw [← String.toList_ofList (l := decode cs), hempty]
  rfl

/-- The text of a raw element that is read does not hold the start of its closing tag. -/
theorem gives_rawBody (tag : String) :
  (rawBody tag).Gives fun ns => ∃ content, ns = rawChildren content ∧ ¬HoldsCloser tag content
  := by
  rw [rawBody]
  refine (gives_rawText tag).bind ?_
  intro ns hns
  apply Reader.gives_bind
  intro _
  exact Reader.gives_pure hns

section

variable {s : List Char}

/-- An element is such as reading gives if what is read of any shorter text is. -/
theorem isRead_of_element
    (hcontent : ∀ u, u.length < s.length → ∀ ns v, content u = .ok (ns, v) → Node.AllRead ns)
    (e : Element) (t : List Char) (h : element s = .ok (e, t)) :
  e.IsRead
  := by
  obtain ⟨tag, u, ns, hopen, hinside, rfl⟩ := element_eq_ok_iff.mp h
  obtain ⟨htag, hnames⟩ := gives_openTag s tag u hopen
  rw [inside] at hinside
  split at hinside
  · obtain ⟨rfl, -⟩ := Prod.mk.inj (Except.ok.inj hinside)
    exact ⟨htag, hnames, fun _ => rfl, fun _ => .inl rfl, trivial⟩
  · next hleaf =>
    have hvoid : tag.name ∉ voidTags := by
      rw [OpenTag.isLeaf, Bool.or_eq_true, not_or, List.contains_iff_mem] at hleaf
      exact hleaf.2
    split at hinside
    · next hraw =>
      obtain ⟨text, rfl, hcloser⟩ := gives_rawBody tag.name u ns t hinside
      refine ⟨htag, hnames, fun hmem => absurd hmem hvoid, ?_, ?_⟩
      · intro _
        delta rawChildren
        split
        · exact .inl rfl
        · exact .inr ⟨text, rfl, hcloser⟩
      · delta rawChildren
        split
        · trivial
        · next hne => exact ⟨hne, trivial⟩
    · next hraw =>
      obtain ⟨ms, w, hread, hclose⟩ := Reader.bind_eq_ok hinside
      obtain ⟨_, _, _, hpure⟩ := Reader.bind_eq_ok hclose
      obtain ⟨rfl, -⟩ := Prod.mk.inj (Except.ok.inj hpure)
      rw [List.contains_iff_mem] at hraw
      exact ⟨htag, hnames, fun hmem => absurd hmem hvoid, fun hmem => absurd hmem hraw,
        hcontent u (Reader.Consumes.shorter hopen) ms w hread⟩

/-- Content is such as reading gives if an element in front of it is, and what is read of any
shorter text. -/
theorem allRead_of_content
    (hcontent : ∀ u, u.length < s.length → ∀ ns v, content u = .ok (ns, v) → Node.AllRead ns)
    (helement : ∀ e u, element s = .ok (e, u) → e.IsRead) (ns : List Node) (t : List Char)
    (h : content s = .ok (ns, t)) :
  Node.AllRead ns
  := by
  cases hcomment : comment s with
  | ok p =>
    rw [content_of_comment hcomment] at h
    apply hcontent p.2 (Reader.Consumes.shorter hcomment) ns t h
  | error u =>
    cases hitem : item s with
    | error v =>
      rw [content_of_error hcomment hitem] at h
      obtain ⟨rfl, -⟩ := Prod.mk.inj (Except.ok.inj h)
      trivial
    | ok p =>
      obtain ⟨n, v⟩ := p
      obtain ⟨hshorter, hcases⟩ := item_eq_ok hitem
      have hn : n.IsRead := by
        rcases hcases with ⟨e, rfl, he⟩ | htext
        · exact helement e v he
        · exact gives_text s n v htext
      rw [content_of_item hcomment hitem] at h
      obtain ⟨ms, w, hread, hpure⟩ := Reader.bind_eq_ok h
      obtain ⟨rfl, -⟩ := Prod.mk.inj (Except.ok.inj hpure)
      exact ⟨hn, hcontent v hshorter ms w hread⟩

end

/-- An element that is read is such as reading gives. -/
theorem gives_element :
  element.Gives Element.IsRead
  := fun s =>
    (element_content_induction (fun _ => isRead_of_element) (fun _ => allRead_of_content) s).1

end Hypertext.Html
