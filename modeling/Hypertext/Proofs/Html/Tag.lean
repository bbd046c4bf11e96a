import Hypertext.Html.Readable
import Hypertext.Html.Writer
import Hypertext.Proofs.Html.Entity
import Hypertext.Proofs.Letters

/-!
# Tags read back

What is written for the tags of an element is read as these tags, whatever stands after them: an
opening tag with its attributes by `openTag_append`, and a closing tag by `closeTagOf_append`.
-/

namespace Hypertext.Html

open Grammar
open Reader (Ahead Refuses)

/-! ### Letters -/

/-- A letter may stand in a tag. -/
theorem isTagChar_of_isAlpha {c : Char} (h : c.isAlpha) :
  isTagChar c
  := by
  delta isTagChar Char.isAlphanum
  rw [h, Bool.true_or, Bool.true_or, Bool.true_or]

/-- A character may stand in a tag in any case. -/
theorem isTagChar_toLower (c : Char) :
  isTagChar c.toLower = isTagChar c
  := apply_toLower (fun _ => isTagChar_of_isAlpha) c

/-- A space ends a tag. -/
theorem isTagChar_of_isSpace {c : Char} (h : Reader.isSpace c) :
  isTagChar c = false
  := by
  simp only [Reader.isSpace, Bool.or_eq_true, decide_eq_true_eq] at h
  rcases h with ((rfl | rfl) | rfl) | rfl <;> decide

/-! ### Names -/

/-- A tag is a letter and then letters, digits, hyphens and colons, with no letter in upper case. -/
theorem isTag_iff {tag : String} :
  isTag tag ↔ ∃ c cs, tag.toList = c :: cs ∧ c.isLower
    ∧ ∀ d ∈ cs, isTagChar d ∧ d.isUpper = false
  := by
  rw [isTag]
  cases tag.toList with
  | nil => simp
  | cons c cs =>
    simp only [Bool.and_eq_true, List.all_eq_true, Bool.not_eq_true']
    constructor
    · rintro ⟨hc, hcs⟩
      exact ⟨c, cs, rfl, hc, hcs⟩
    · rintro ⟨d, ds, heq, h⟩
      obtain ⟨rfl, rfl⟩ := List.cons.inj heq
      exact h

/-- Lower case does not change a tag. -/
theorem map_toLower_of_isTag {tag : String} (h : isTag tag) :
  tag.toList.map Char.toLower = tag.toList
  := by
  obtain ⟨c, cs, htag, hc, hcs⟩ := isTag_iff.mp h
  rw [htag]
  apply (List.map_congr_left _).trans (List.map_id _)
  intro d hd
  apply Char.toLower_eq_of_not_isUpper
  rcases List.mem_cons.mp hd with rfl | hd
  · apply Char.not_isUpper_of_isLower hc
  · exact Bool.eq_false_iff.mp (hcs d hd).2

/-- A tag is read in any case, up to a character that cannot belong to it. -/
theorem tagName_append {tag : String} (h : isTag tag) {name s : List Char}
    (hname : name.map Char.toLower = tag.toList) (hs : Ahead (isTagChar · = false) s) :
  tagName (name ++ s) = .ok (tag, s)
  := by
  obtain ⟨d, ds, htag, hd, hds⟩ := isTag_iff.mp h
  obtain ⟨c, cs, rfl, rfl, rfl⟩ := List.map_eq_cons_iff.mp (hname.trans htag)
  have halpha : c.isAlpha := (Char.isLower_toLower_eq_isAlpha c).symm.trans hd
  have hrun : Reader.run isTagChar (cs ++ s) = .ok (cs, s) := by
    apply Reader.run_append _ hs
    intro c hc
    rw [← isTagChar_toLower]
    exact (hds c.toLower (List.mem_map_of_mem hc)).1
  rw [List.cons_append, tagName, Reader.bind_ok (Reader.satisfying_cons halpha),
    Reader.bind_ok hrun, hname, String.ofList_toList]
  rfl

/-- The tag that is read stands at the front, in some case. -/
theorem tagName_eq_ok {tag : String} {s t : List Char} (h : tagName s = .ok (tag, t)) :
  ∃ name, name.map Char.toLower = tag.toList ∧ s = name ++ t
  := by
  obtain ⟨c, u, hc, hrest⟩ := Reader.bind_eq_ok h
  obtain ⟨rfl, -⟩ := Reader.satisfying_eq_ok hc
  obtain ⟨cs, v, hcs, hpure⟩ := Reader.bind_eq_ok hrest
  obtain ⟨rfl, -⟩ := Reader.run_eq_ok hcs
  obtain ⟨rfl, rfl⟩ := Prod.mk.inj (Except.ok.inj hpure)
  use c :: cs
  rw [String.toList_ofList]
  exact ⟨rfl, rfl⟩

/-! ### Attributes -/

/-- The name of an attribute is not empty, and no character of it ends one. -/
theorem isAttributeName_iff {name : String} :
  isAttributeName name ↔ name.toList ≠ [] ∧ ∀ c ∈ name.toList, isAttributeChar c
  := by
  rw [isAttributeName, Bool.and_eq_true, List.all_eq_true, Bool.not_eq_true',
    Bool.eq_false_iff, Ne, String.isEmpty_iff, ← String.toList_eq_nil_iff]

/-- A value is read up to the quote after it. -/
theorem quotedValue_append {value : List Char} {quote : Char} (h : ∀ c ∈ value, c ≠ quote)
    (s : List Char) :
  quotedValue quote (quote :: (value ++ quote :: s)) = .ok (value, s)
  := by
  have hrun : Reader.run (· ≠ quote) (value ++ quote :: s) = .ok (value, quote :: s) := by
    apply Reader.run_append
    · simpa using h
    · exact .cons (by simp)
  rw [quotedValue, Reader.bind_ok (Reader.char_cons quote), Reader.bind_ok hrun,
    Reader.bind_ok (Reader.char_cons quote)]
  rfl

/-- What is written for a value is read up to the quote after it. -/
theorem assignedValue_append (value : String) (s : List Char) :
  assignedValue ('=' :: '\'' :: ((escapeAttribute value).toList ++ '\'' :: s))
    = .ok ((escapeAttribute value).toList, s)
  := by
  have hquoted := quotedValue_append (escapeAttribute_clean value) s
  rw [assignedValue, Reader.bind_ok (Reader.spaces_of_spaceless (.cons (by decide))),
    Reader.bind_ok (Reader.char_cons '='),
    Reader.bind_ok (Reader.spaces_of_spaceless (.cons (by decide)))]
  apply Reader.or_of_ok
  apply Reader.or_of_ok hquoted

/-- What is written for an attribute. -/
def attributeHtml (p : String × String) : List Char :=
  ' ' :: (p.1.toList ++ '=' :: '\'' :: ((escapeAttribute p.2).toList ++ ['\'']))

/-- What is written for an attribute is read as it. -/
theorem tagAttribute_append {p : String × String} (h : isAttributeName p.1) (s : List Char) :
  tagAttribute (attributeHtml p ++ s) = .ok (p, s)
  := by
  obtain ⟨hne, hname⟩ := isAttributeName_iff.mp h
  have happend : attributeHtml p ++ s
      = ' ' :: (p.1.toList ++ '=' :: '\'' :: ((escapeAttribute p.2).toList ++ '\'' :: s)) := by
    simp [attributeHtml]
  have hspaces : Reader.spaces1 (attributeHtml p ++ s)
      = .ok ((), p.1.toList ++ '=' :: '\'' :: ((escapeAttribute p.2).toList ++ '\'' :: s)) := by
    rw [happend]
    apply Reader.spaces1_cons_of_spaceless
    obtain ⟨c, cs, hcons⟩ := List.exists_cons_of_ne_nil hne
    rw [hcons] at hname ⊢
    have hc := hname c (.head cs)
    rw [isAttributeChar, Bool.not_eq_true', Bool.or_eq_false_iff] at hc
    exact .cons hc.1
  rw [tagAttribute, Reader.bind_ok hspaces,
    Reader.bind_ok (Reader.run1_append hne hname (.cons (by decide))),
    Reader.bind_ok (Reader.option_of_ok (assignedValue_append p.2 s)), Option.getD_some,
    decode_escapeAttribute, String.ofList_toList, String.ofList_toList]
  rfl

/-- What is written for attributes is written for each of them. -/
theorem toList_writeHtml (a : Attributes) :
  a.writeHtml.toList = a.pairs.flatMap attributeHtml
  := by
  rw [Attributes.writeHtml, toList_join_map]
  congr 1
  funext p
  simp [attributeHtml]

/-- Attributes are read up to the end of the opening tag. -/
theorem many_tagAttribute {a : Attributes} (h : ∀ name ∈ a.names, isAttributeName name)
    (s : List Char) :
  Reader.many tagAttribute (a.writeHtml.toList ++ '>' :: s) = .ok (a.pairs, '>' :: s)
  := by
  have hrefuses : Refuses tagAttribute ('>' :: s) :=
    (Reader.refuses_spaces1 (.cons (by decide))).bind
  have hread : ∀ p ∈ a.pairs, ∀ s, tagAttribute (attributeHtml p ++ s) = .ok (id p, s) :=
    fun p hp => tagAttribute_append (h p.1 (List.mem_map_of_mem hp))
  rw [toList_writeHtml, Reader.many_flatMap_of_mem hread hrefuses, List.map_id]

/-! ### Tags -/

/-- What is written for an opening tag. -/
def openTagHtml (tag : String) (a : Attributes) : List Char :=
  '<' :: (tag.toList ++ (a.writeHtml.toList ++ ['>']))

/-- What is written for a closing tag. -/
def closeTagHtml (tag : String) : List Char := closer tag ++ ['>']

/-- What is written for an opening tag is read as it. -/
theorem openTag_append {tag : String} {a : Attributes} (htag : isTag tag)
    (hnames : ∀ name ∈ a.names, isAttributeName name) (s : List Char) :
  openTag (openTagHtml tag a ++ s) = .ok (⟨tag, a, false⟩, s)
  := by
  have happend : openTagHtml tag a ++ s
      = '<' :: (tag.toList ++ (a.writeHtml.toList ++ '>' :: s)) := by
    simp [openTagHtml]
  have hend : Ahead (isTagChar · = false) (a.writeHtml.toList ++ '>' :: s) := by
    rw [toList_writeHtml]
    cases a.pairs with
    | nil => exact .cons (by decide)
    | cons p ps => exact .cons (by decide)
  have hclosed : Refuses (Reader.exactly ['/', '>']) ('>' :: s) := Reader.refuses_exactly rfl
  have htagEnd : tagEnd ('>' :: s) = .ok (false, s) := by
    rw [tagEnd, Reader.or_of_refuses hclosed.bind, Reader.bind_ok (Reader.char_cons '>')]
    rfl
  rw [happend, openTag, Reader.bind_ok (Reader.char_cons '<'),
    Reader.bind_ok (tagName_append htag (map_toLower_of_isTag htag) hend),
    Reader.bind_ok (many_tagAttribute hnames s),
    Reader.bind_ok (Reader.spaces_of_spaceless (.cons (by decide))), Reader.bind_ok htagEnd,
    Attributes.ofList_pairs]
  rfl

/-- A closing tag of an element, in any case and with spaces before its end. -/
def IsClosingTag (tag : String) (text : List Char) : Prop :=
  ∃ name gap, text = '<' :: '/' :: (name ++ (gap ++ ['>']))
    ∧ name.map Char.toLower = tag.toList ∧ ∀ c ∈ gap, Reader.isSpace c = true

/-- What is written for a closing tag is one. -/
theorem isClosingTag_closeTagHtml {tag : String} (h : isTag tag) :
  IsClosingTag tag (closeTagHtml tag)
  := ⟨tag.toList, [], rfl, map_toLower_of_isTag h, nofun⟩

/-- A closing tag is read in any case and with spaces before its end. -/
theorem closeTag_append {tag : String} (h : isTag tag) {text : List Char}
    (htext : IsClosingTag tag text) (s : List Char) :
  closeTag (text ++ s) = .ok (tag, s)
  := by
  obtain ⟨name, gap, rfl, hname, hgap⟩ := htext
  have happend : '<' :: '/' :: (name ++ (gap ++ ['>'])) ++ s
      = ['<', '/'] ++ (name ++ (gap ++ '>' :: s)) := by
    simp
  have hend : Ahead (isTagChar · = false) (gap ++ '>' :: s) := by
    cases gap with
    | nil => exact .cons (by decide)
    | cons c gap => exact .cons (isTagChar_of_isSpace (hgap c (.head gap)))
  have hspaces : Reader.spaces (gap ++ '>' :: s) = .ok ((), '>' :: s) := by
    rw [Reader.spaces, Reader.bind_ok (Reader.run_append hgap (.cons (by decide)))]
    rfl
  rw [happend, closeTag, Reader.bind_ok (Reader.exactly_append _ _),
    Reader.bind_ok (tagName_append h hname hend), Reader.bind_ok hspaces,
    Reader.bind_ok (Reader.char_cons '>')]
  rfl

/-- What is read as a closing tag is one. -/
theorem closeTag_eq_ok {tag : String} {s t : List Char} (h : closeTag s = .ok (tag, t)) :
  ∃ text, IsClosingTag tag text ∧ s = text ++ t
  := by
  obtain ⟨_, u, hstart, hname⟩ := Reader.bind_eq_ok h
  obtain rfl := Reader.exactly_eq_ok hstart
  obtain ⟨tag', v, hname, hspaces⟩ := Reader.bind_eq_ok hname
  obtain ⟨name, hlower, rfl⟩ := tagName_eq_ok hname
  obtain ⟨_, w, hspaces, hend⟩ := Reader.bind_eq_ok hspaces
  obtain ⟨gap, hgap, rfl⟩ := Reader.spaces_eq_ok hspaces
  obtain ⟨_, x, hchar, hpure⟩ := Reader.bind_eq_ok hend
  obtain rfl := Reader.char_eq_ok hchar
  obtain ⟨rfl, rfl⟩ := Prod.mk.inj (Except.ok.inj hpure)
  refine ⟨_, ⟨name, gap, rfl, hlower, hgap⟩, ?_⟩
  simp only [List.cons_append, List.append_assoc, List.nil_append]

/-- What is written for a closing tag closes its element. -/
theorem closeTagOf_append {tag : String} (h : isTag tag) (s : List Char) :
  closeTagOf tag (closeTagHtml tag ++ s) = .ok ((), s)
  := by
  rw [closeTagOf, closeTag_append h (isClosingTag_closeTagHtml h)]
  apply if_pos rfl

/-- What closes an element is a closing tag of it. -/
theorem closeTagOf_eq_ok {tag : String} {a : Unit} {s t : List Char}
    (h : closeTagOf tag s = .ok (a, t)) :
  closeTag s = .ok (tag, t)
  := by
  rw [closeTagOf] at h
  split at h
  · next closed u hclose =>
    split at h
    · next heq =>
      obtain ⟨-, rfl⟩ := Prod.mk.inj (Except.ok.inj h)
      rw [hclose, heq]
    · cases h
  · cases h

/-- The closing tag of another element is not taken. -/
theorem refuses_closeTagOf {tag other : String} (h : isTag tag) (hne : tag ≠ other)
    (s : List Char) :
  Refuses (closeTagOf other) (closeTagHtml tag ++ s)
  := by
  use closeTagHtml tag ++ s
  rw [closeTagOf, closeTag_append h (isClosingTag_closeTagHtml h)]
  apply if_neg hne

end Hypertext.Html
