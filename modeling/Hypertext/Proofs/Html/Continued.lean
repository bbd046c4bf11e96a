import Hypertext.Proofs.Html.Element
import Hypertext.Proofs.Html.Forward
import Hypertext.Proofs.Reader.Continued

/-!
# Elements in longer texts

An element that is read is read in the same way if more text follows it.  Every search that was
successful ends at the same place, and every run of characters has something after it that ends it,
up to the closing angle bracket of a tag.  Where a reader of the grammar stopped and another one
went on, the reason is a character that is there already: after an attribute the sign that opens its
value is missing, after the attributes of a tag comes the end of the tag, and content ends at a
closing tag.
-/

namespace Hypertext.Html

open Grammar
open Reader (Ahead Refuses Continued Persists)

variable {rest s s' t : List Char} {ends : List Char → Prop}

/-! ### Searches -/

/-- A search for a text, character by character up to a function, ends at the same place: at an
earlier one the characters that it compares are there already. -/
theorem persists_upTo {p : List Char → Bool} {f : Char → Char} {text : List Char}
    (hp : ∀ s, p s = true ↔ text <+: s.map f) :
  (upTo p).Persists rest Eq ends
  := by
  intro s s' t front hread _ hs
  obtain ⟨rfl, hfound, hfirst⟩ := upTo_eq_ok_iff.mp hread
  obtain ⟨t', rfl, ht⟩ := hs.of_append
  obtain ⟨more, rfl⟩ : ∃ more, t' = t ++ more := by
    obtain ⟨gap, -, rfl⟩ := ht
    use gap ++ rest
  refine ⟨front, t ++ more, upTo_eq_ok_iff.mpr ⟨rfl, ?_, ?_⟩, rfl, ht⟩
  · rw [hp, List.map_append]
    apply ((hp t).mp hfound).trans
    apply List.prefix_append
  · intro v hv hne
    rw [Bool.eq_false_iff]
    intro hearlier
    have hshort : text.length ≤ ((v ++ t).map f).length := by
      have hlength := ((hp t).mp hfound).length_le
      simp only [List.length_map, List.length_append] at hlength ⊢
      omega
    have hlong : text <+: (v ++ t).map f ++ more.map f := by
      rw [← List.map_append, List.append_assoc]
      apply (hp _).mp hearlier
    have hinside := List.prefix_of_prefix_length_le hlong (List.prefix_append _ _) hshort
    rw [← hp, hfirst v hv hne] at hinside
    cases hinside

/-- A comment is read of the continued text too. -/
theorem persists_comment :
  comment.Persists rest Eq ends
  := by
  apply (Reader.persists_exactly _).seq
  intro _
  have hdashes (s : List Char) : ['-', '-', '>'].isPrefixOf s = true
      ↔ ['-', '-', '>'] <+: s.map id := by
    rw [List.isPrefixOf_iff_prefix, List.map_id]
  apply (persists_upTo hdashes).seq
  intro _
  apply Reader.persists_exactly

/-! ### Names and values -/

/-- A tag that ends before the end of the text is read of the continued text too. -/
theorem persists_tagName :
  tagName.Persists rest Eq (· ≠ [])
  := by
  apply (Reader.persists_satisfying _).seq
  intro c
  apply (Reader.persists_run _).map

instance (quote : Char) : (quotedValue quote).Consumes := by
  unfold quotedValue
  infer_instance

/-- A value in quotes is read of the continued text too. -/
theorem persists_quotedValue (quote : Char) :
  (quotedValue quote).Persists rest Eq ends
  := by
  apply (Reader.persists_char quote).seq
  intro _
  apply (Reader.persists_run _).before
  intro cs
  apply (Reader.persists_char quote).map

/-- No value in quotes is read where no quote is next. -/
theorem refuses_quotedValue {quote : Char} (h : Ahead (· ≠ quote) s) :
  Refuses (quotedValue quote) s
  := (Reader.refuses_char h).bind

/-- Where one of several readers of a value reads, those before it stop at the first character. -/
theorem persists_value :
  (((quotedValue '\'').or (quotedValue '"')).or (Reader.run1 isBareChar)).Persists rest Eq (· ≠ [])
  := by
  have hquoted : ((quotedValue '\'').or (quotedValue '"')).Persists rest Eq (· ≠ []) := by
    apply (persists_quotedValue '\'').or (persists_quotedValue '"')
    intro s s' t value _ hread _ hs
    obtain ⟨u, rfl⟩ := Reader.exists_cons_of_char hread
    obtain ⟨u', rfl, -⟩ := hs.of_cons
    apply refuses_quotedValue (.cons (by decide))
  apply hquoted.or (Reader.persists_run1 isBareChar)
  intro s s' t value _ hread _ hs
  obtain ⟨rfl, hne, hbare⟩ := Reader.run1_eq_ok hread
  obtain ⟨c, cs, rfl⟩ := List.exists_cons_of_ne_nil hne
  obtain ⟨u', rfl, -⟩ := hs.of_cons
  have hquote (quote : Char) (hquote : isBareChar quote = false) : c ≠ quote := by
    rintro rfl
    rw [hbare c (.head cs)] at hquote
    cases hquote
  apply Refuses.or
  · apply refuses_quotedValue (.cons (hquote '\'' (by decide)))
  · apply refuses_quotedValue (.cons (hquote '"' (by decide)))

/-- A value that ends before the end of the text is read of the continued text too. -/
theorem persists_assignedValue :
  assignedValue.Persists rest Eq (· ≠ [])
  := by
  apply Reader.persists_spaces_before.before
  intro _
  apply (Reader.persists_char '=').seq
  intro _
  apply Reader.persists_spaces_before.before
  intro _
  apply persists_value

/-! ### Attributes -/

/-- After spaces, if there are any, comes a character with a property. -/
def AfterSpaces (p : Char → Prop) (s : List Char) : Prop :=
  ∃ gap c t, (∀ d ∈ gap, Reader.isSpace d = true) ∧ Reader.isSpace c = false ∧ p c
    ∧ s = gap ++ c :: t

namespace AfterSpaces

variable {p q : Char → Prop}

/-- What is known of the character after the spaces may be weakened. -/
theorem mono (h : AfterSpaces p s) (hpq : ∀ c, p c → q c) :
  AfterSpaces q s
  := by
  obtain ⟨gap, c, t, hgap, hspace, hc, rfl⟩ := h
  use gap, c, t, hgap, hspace, hpq c hc

theorem ne_nil (h : AfterSpaces p s) :
  s ≠ []
  := by
  obtain ⟨gap, c, t, -, -, -, rfl⟩ := h
  apply List.append_ne_nil_of_right_ne_nil
  apply List.cons_ne_nil

/-- The character after the spaces is the same in the continued text. -/
theorem continued (h : AfterSpaces p s) (hs : Continued rest s s') :
  AfterSpaces p s'
  := by
  obtain ⟨gap, c, t, hgap, hspace, hc, rfl⟩ := h
  obtain ⟨u', rfl, hu⟩ := hs.of_append
  obtain ⟨t', rfl, -⟩ := hu.of_cons
  use gap, c, t', hgap, hspace, hc

/-- Reading spaces leads to the character after them. -/
theorem exists_spaces (h : AfterSpaces p s) :
  ∃ c t, p c ∧ Reader.spaces s = .ok ((), c :: t)
  := by
  obtain ⟨gap, c, t, hgap, hspace, hc, rfl⟩ := h
  use c, t, hc
  rw [Reader.spaces, Reader.bind_ok (Reader.run_append hgap (.cons hspace))]
  rfl

/-- What has to come after spaces does not if something else does. -/
theorem refuses_spaces1_bind {α : Type} {f : Unit → Reader α} (h : AfterSpaces p s)
    (hf : ∀ c t, p c → Refuses (f ()) (c :: t)) :
  Refuses (Reader.spaces1 >>= f) s
  := by
  obtain ⟨gap, c, t, hgap, hspace, hc, rfl⟩ := h
  cases gap with
  | nil =>
    apply Refuses.bind
    apply Reader.refuses_spaces1 (.cons hspace)
  | cons d gap =>
    have hspaces : Reader.spaces1 (d :: gap ++ c :: t) = .ok ((), c :: t) := by
      rw [Reader.spaces1,
        Reader.bind_ok (Reader.run1_append (List.cons_ne_nil d gap) hgap (.cons hspace))]
      rfl
    apply Reader.refuses_bind_of_ok hspaces
    apply hf c t hc

end AfterSpaces

/-- No value is read where no equals sign comes after the spaces. -/
theorem refuses_assignedValue (h : AfterSpaces (· ≠ '=') s) :
  Refuses assignedValue s
  := by
  obtain ⟨c, t, hc, hspaces⟩ := h.exists_spaces
  apply Reader.refuses_bind_of_ok hspaces
  apply Refuses.bind
  apply Reader.refuses_char (.cons hc)

/-- An attribute is read of the continued text too, if no equals sign comes after it. -/
theorem persists_tagAttribute :
  tagAttribute.Persists rest Eq (AfterSpaces (· ≠ '='))
  := by
  have hvalue : assignedValue.option.Persists rest Eq (AfterSpaces (· ≠ '=')) := by
    apply (persists_assignedValue.mono fun _ h => h.ne_nil).option
    intro t t' _ hend ht
    apply refuses_assignedValue (hend.continued ht)
  apply Reader.persists_spaces1.before
  intro _
  apply (Reader.persists_run1 isAttributeChar).bind
  · intro name
    apply hvalue.map
  · rintro name p t t' hread hend rfl
    apply hend.ne_nil
    obtain ⟨value, u, hvalue, hpure⟩ := Reader.bind_eq_ok hread
    obtain ⟨-, rfl⟩ := Prod.mk.inj (Except.ok.inj hpure)
    apply List.suffix_nil.mp (Reader.Forward.suffix_of_ok hvalue)

/-- A name of an attribute does not start with a character that ends one. -/
theorem refuses_run1_isAttributeChar {c : Char} (hc : isAttributeChar c = false) (t : List Char) :
  Refuses (Reader.run1 isAttributeChar) (c :: t)
  := Reader.refuses_run1 (.cons hc)

/-- An attribute starts with spaces and then with no equals sign. -/
theorem afterSpaces_of_tagAttribute {p : (String × String) × List Char}
    (h : tagAttribute s = .ok p) :
  AfterSpaces (· ≠ '=') s
  := by
  obtain ⟨_, u, hspaces, hname⟩ := Reader.bind_eq_ok (t := p.2) h
  obtain ⟨gap, hgap, rfl⟩ := Reader.exists_gap_of_spaces1 hspaces
  obtain ⟨name, w, hname, -⟩ := Reader.bind_eq_ok hname
  obtain ⟨rfl, hne, hchars⟩ := Reader.run1_eq_ok hname
  obtain ⟨d, ds, rfl⟩ := List.exists_cons_of_ne_nil hne
  have hd := hchars d (.head ds)
  refine ⟨gap, d, ds ++ w, hgap, ?_, ?_, rfl⟩
  · rw [isAttributeChar, Bool.not_eq_true', Bool.or_eq_false_iff] at hd
    exact hd.1
  · rintro rfl
    cases hd

/-! ### Tags -/

/-- Whether a character can start the end of an opening tag. -/
def EndsTag (c : Char) : Prop := c = '/' ∨ c = '>'

/-- The end of an opening tag starts with a slash or a bracket, after spaces. -/
theorem afterSpaces_of_tagEnd {a : Bool} (h : (do Reader.spaces; tagEnd) s = .ok (a, t)) :
  AfterSpaces EndsTag s
  := by
  obtain ⟨_, u, hspaces, hend⟩ := Reader.bind_eq_ok h
  obtain ⟨gap, hgap, rfl⟩ := Reader.spaces_eq_ok hspaces
  rcases Reader.or_eq_ok hend with hend | hend
  · obtain ⟨_, v, hexactly, -⟩ := Reader.bind_eq_ok hend
    obtain rfl := Reader.exactly_eq_ok hexactly
    use gap, '/', '>' :: v, hgap, by decide, .inl rfl
    rfl
  · obtain ⟨v, rfl⟩ := Reader.exists_cons_of_char hend
    use gap, '>', v, hgap, by decide, .inr rfl

/-- No attribute is read at the end of an opening tag. -/
theorem refuses_tagAttribute (h : AfterSpaces EndsTag s) :
  Refuses tagAttribute s
  := by
  apply h.refuses_spaces1_bind
  rintro c t (rfl | rfl)
  · apply Refuses.bind
    apply refuses_run1_isAttributeChar (by decide)
  · apply Refuses.bind
    apply refuses_run1_isAttributeChar (by decide)

/-- The attributes are read of the continued text too, if the end of the tag comes after them. -/
theorem persists_many_tagAttribute :
  (Reader.many tagAttribute).Persists rest Eq (AfterSpaces EndsTag)
  := by
  have hmany : (Reader.many tagAttribute).Persists rest (List.Forall₂ Eq) (AfterSpaces EndsTag) := by
    apply persists_tagAttribute.many
    · intro t p hread
      apply afterSpaces_of_tagAttribute hread
    · intro t hend
      apply hend.mono
      rintro c (rfl | rfl) <;> decide
    · intro t t' _ hend ht
      apply refuses_tagAttribute (hend.continued ht)
  rwa [List.forall₂_eq_eq_eq] at hmany

instance : tagEnd.Consumes := by
  unfold tagEnd
  infer_instance

/-- The end of an opening tag is read of the continued text too. -/
theorem persists_tagEnd :
  tagEnd.Persists rest Eq ends
  := by
  have hslash : (do Reader.exactly ['/', '>']; return true : Reader Bool).Persists rest Eq ends :=
    (Reader.persists_exactly _).map
  have hangle : (do Reader.char '>'; return false : Reader Bool).Persists rest Eq ends :=
    (Reader.persists_char '>').map
  apply hslash.or hangle
  intro s s' t a _ hread _ hs
  obtain ⟨u, rfl⟩ := Reader.exists_cons_of_char hread
  obtain ⟨u', rfl, -⟩ := hs.of_cons
  apply Refuses.bind
  apply Reader.refuses_exactly rfl

/-- An opening tag is read of the continued text too. -/
theorem persists_openTag :
  openTag.Persists rest Eq ends
  := by
  apply (Reader.persists_char '<').seq
  intro _
  apply persists_tagName.before
  intro name
  apply persists_many_tagAttribute.bind
  · intro pairs
    apply Reader.persists_spaces_before.before
    intro _
    apply persists_tagEnd.map
  · intro pairs tag t t' hread _
    obtain ⟨_, u, hspaces, hread⟩ := Reader.bind_eq_ok hread
    obtain ⟨isClosed, v, hend, -⟩ := Reader.bind_eq_ok hread
    apply afterSpaces_of_tagEnd ((Reader.bind_ok hspaces).trans hend)

/-- A closing tag is read of the continued text too. -/
theorem persists_closeTag :
  closeTag.Persists rest Eq ends
  := by
  apply (Reader.persists_exactly _).seq
  intro _
  apply persists_tagName.before
  intro name
  apply Reader.persists_spaces_before.before
  intro _
  apply (Reader.persists_char '>').map

/-- The closing tag of an element is read of the continued text too. -/
theorem persists_closeTagOf (name : String) :
  (closeTagOf name).Persists rest Eq ends
  := by
  intro s s' t a hread hend hs
  obtain ⟨_, t', hclose, rfl, ht⟩ := persists_closeTag (closeTagOf_eq_ok hread) hend hs
  have hclosed : closeTagOf name s' = .ok ((), t') := by
    rw [closeTagOf, hclose]
    apply if_pos rfl
  use (), t', hclosed, rfl

/-! ### Elements -/

/-- A text that ends before the end of the whole is read of the continued text too. -/
theorem persists_text :
  text.Persists rest Eq (· ≠ [])
  := (Reader.persists_run1 _).map

/-- The text of a raw element is read of the continued text too. -/
theorem persists_rawBody (name : String) :
  (rawBody name).Persists rest Eq ends
  := by
  have hraw : (rawText name).Persists rest Eq fun _ => True := by
    apply Persists.map (persists_upTo fun s => startsWithAnyCase_iff)
  apply hraw.seq
  intro children
  apply (persists_closeTagOf name).map

/-- An element starts with an angle bracket and a letter. -/
theorem exists_cons_of_element {e : Element} (h : element s = .ok (e, t)) :
  ∃ c u, s = '<' :: c :: u ∧ c ≠ '!'
  := by
  obtain ⟨tag, u, ns, hopen, -, -⟩ := element_eq_ok_iff.mp h
  obtain ⟨_, v, hangle, hname⟩ := Reader.bind_eq_ok hopen
  obtain rfl := Reader.char_eq_ok hangle
  obtain ⟨name, w, hname, -⟩ := Reader.bind_eq_ok hname
  obtain ⟨c, x, hc, -⟩ := Reader.bind_eq_ok hname
  obtain ⟨rfl, halpha⟩ := Reader.satisfying_eq_ok hc
  refine ⟨c, x, rfl, ?_⟩
  rintro rfl
  cases halpha

/-- A closing tag is next, or what starts like one. -/
def AtClosingTag (s : List Char) : Prop := ∃ u, s = '<' :: '/' :: u

/-- What is read of this text is read of the continued text too, if what is left has a property. -/
def Lasts {α : Type} (rest : List Char) (ends : List Char → Prop) (r : Reader α) (s : List Char) :
    Prop :=
  ∀ ⦃s' t : List Char⦄ ⦃a : α⦄, r s = .ok (a, t) → ends t → Continued rest s s' →
    ∃ t', r s' = .ok (a, t') ∧ Continued rest t t'

/-- Content and a closing tag after it last if content does. -/
theorem lasts_body (name : String) (hcontent : Lasts rest AtClosingTag content s) :
  Lasts rest (fun _ => True) (body name) s
  := by
  intro s' t ns hread _ hs
  obtain ⟨ns, u, hns, hclose⟩ := Reader.bind_eq_ok hread
  obtain ⟨_, v, hclosed, hpure⟩ := Reader.bind_eq_ok hclose
  obtain ⟨rfl, rfl⟩ := Prod.mk.inj (Except.ok.inj hpure)
  have hclosing : AtClosingTag u := by
    obtain ⟨text, ⟨closed, gap, rfl, -⟩, rfl⟩ := closeTag_eq_ok (closeTagOf_eq_ok hclosed)
    exact ⟨_, rfl⟩
  obtain ⟨u', hns', hu⟩ := hcontent hns hclosing hs
  obtain ⟨v', hclosed', hv⟩ := (persists_closeTagOf name).exists_ok hclosed hu
  use v'
  rw [body, Reader.bind_ok hns', Reader.bind_ok hclosed']
  use rfl

/-- An element or a text in front lasts if an element does, and no comment comes to stand there. -/
theorem lasts_item {n : Node} (helement : Lasts rest (fun _ => True) element s)
    (hread : item s = .ok (n, t)) (hne : t ≠ []) (hs : Continued rest s s') :
  ∃ t', Refuses comment s' ∧ item s' = .ok (n, t') ∧ Continued rest t t'
  := by
  rcases (item_eq_ok hread).2 with ⟨e, rfl, he⟩ | htext
  · obtain ⟨t', he', ht⟩ := helement he trivial hs
    obtain ⟨c, u, rfl, hc⟩ := exists_cons_of_element he
    obtain ⟨u', rfl, -⟩ := hs.of_append (u := ['<', c])
    use t', refuses_comment hc u', Reader.or_of_ok (Reader.bind_ok he')
  · obtain ⟨_, t', htext', rfl, ht⟩ := persists_text htext hne hs
    have hahead : Ahead (· ≠ '<') s' := by
      obtain ⟨cs, u, hcs, -⟩ := Reader.bind_eq_ok htext
      obtain ⟨c, v, hc, -⟩ := Reader.bind_eq_ok hcs
      obtain ⟨rfl, hangle⟩ := Reader.satisfying_eq_ok hc
      obtain ⟨v', rfl, -⟩ := hs.of_cons
      exact .cons (of_decide_eq_true hangle)
    use t', refuses_comment_of_ahead hahead
    constructor
    · rw [item, Reader.or_of_refuses (refuses_element_of_ahead hahead).bind, htext']
    · apply ht

/-- What belongs to an element lasts if content does. -/
theorem lasts_inside (tag : OpenTag) (hcontent : Lasts rest AtClosingTag content s) :
  Lasts rest (fun _ => True) (inside tag) s
  := by
  rw [inside]
  split
  · intro s' t ns hread _ hs
    obtain ⟨rfl, rfl⟩ := Prod.mk.inj (Except.ok.inj hread)
    use s', rfl
  · split
    · intro s' t ns hread _ hs
      apply (persists_rawBody tag.name).exists_ok hread hs
    · apply lasts_body tag.name hcontent

/-- An element lasts if content of any shorter text does. -/
theorem lasts_element
    (hcontent : ∀ u : List Char, u.length < s.length → Lasts rest AtClosingTag content u) :
  Lasts rest (fun _ => True) element s
  := by
  intro s' t e hread _ hs
  obtain ⟨tag, u, ns, hopen, hinside, rfl⟩ := element_eq_ok_iff.mp hread
  obtain ⟨u', hopen', hu⟩ := persists_openTag.exists_ok hopen hs
  have hlasts := lasts_inside tag (hcontent u (Reader.Consumes.shorter hopen))
  obtain ⟨t', hinside', ht⟩ := hlasts hinside trivial hu
  use t', element_eq_ok_iff.mpr ⟨tag, u', ns, hopen', hinside', rfl⟩

/-- Content lasts if an element in front of it does, and content of any shorter text. -/
theorem lasts_content
    (hcontent : ∀ u : List Char, u.length < s.length → Lasts rest AtClosingTag content u)
    (helement : Lasts rest (fun _ => True) element s) :
  Lasts rest AtClosingTag content s
  := by
  intro s' t ns hread hend hs
  cases hcomment : comment s with
  | ok p =>
    rw [content_of_comment hcomment] at hread
    obtain ⟨u', hcomment', hu⟩ := persists_comment.exists_ok hcomment hs
    rw [content_of_comment hcomment']
    apply hcontent p.2 (Reader.Consumes.shorter hcomment) hread hend hu
  | error u =>
    cases hitem : item s with
    | ok p =>
      rw [content_of_item hcomment hitem] at hread
      obtain ⟨ms, v, hms, hpure⟩ := Reader.bind_eq_ok hread
      obtain ⟨rfl, rfl⟩ := Prod.mk.inj (Except.ok.inj hpure)
      have hne : p.2 ≠ [] := by
        intro hnil
        obtain ⟨w, rfl⟩ := hend
        have hsuffix := Reader.Forward.suffix_of_ok hms
        rw [hnil] at hsuffix
        cases List.suffix_nil.mp hsuffix
      obtain ⟨u', ⟨w, hcomment'⟩, hitem', hu⟩ := lasts_item helement hitem hne hs
      obtain ⟨v', hms', hv⟩ := hcontent p.2 (item_eq_ok hitem).1 hms hend hu
      rw [content_of_item hcomment' hitem', Reader.bind_ok hms']
      use v', rfl
    | error v =>
      rw [content_of_error hcomment hitem] at hread
      obtain ⟨rfl, rfl⟩ := Prod.mk.inj (Except.ok.inj hread)
      obtain ⟨w, rfl⟩ := hend
      obtain ⟨w', rfl, -⟩ := hs.of_append (u := ['<', '/'])
      use '<' :: '/' :: w', content_slash w'
      apply hs

/-- An element is read of the continued text too. -/
theorem persists_element :
  element.Persists rest Eq fun _ => True
  := by
  intro s s' t e hread hend hs
  have hlasts : Lasts rest (fun _ => True) element s :=
    (element_content_induction (fun _ => lasts_element) (fun _ => lasts_content) s).1
  obtain ⟨t', hread', ht⟩ := hlasts hread hend hs
  use e, t', hread', rfl

end Hypertext.Html
