import Hypertext.Proofs.Html.RoundTrip
import Mathlib.Data.List.Infix

/-!
# Where raw text ends

The text of a raw element ends at the first place that looks like its closing tag, which is the
start of a closing tag but need not be one: the tag may go on, or what follows may not end it.  So a
text without a closing tag is read between the tags of a raw element if and only if there is no such
place in it.
-/

namespace Hypertext.Html

open Grammar
open Reader (Refuses)

/-! ### Closing tags in a text -/

/-- Whether a text holds a closing tag of an element. -/
def HoldsClosingTag (tag content : String) : Prop :=
  ∃ text, IsClosingTag tag text ∧ text <:+: content.toList

section

variable {tag content : String}

/-- A closing tag starts with what it looks like. -/
theorem closer_starts_of_isClosingTag {text : List Char} (h : IsClosingTag tag text) :
  closer tag <+: text.map Char.toLower
  := by
  obtain ⟨name, gap, rfl, hname, -⟩ := h
  rw [List.map_cons, List.map_cons, List.map_append, hname, closer]
  exact List.prefix_append ('<' :: '/' :: tag.toList) _

/-- A text with a closing tag in it holds the start of one. -/
theorem HoldsClosingTag.holdsCloser (h : HoldsClosingTag tag content) :
  HoldsCloser tag content
  := by
  obtain ⟨text, htext, hpart⟩ := h
  exact (closer_starts_of_isClosingTag htext).isInfix.trans (hpart.map Char.toLower)

variable (htag : isTag tag)

include htag

/-- A text holds a closing tag exactly if one can be read at some place of it. -/
theorem holdsClosingTag_iff :
  HoldsClosingTag tag content
    ↔ ∃ s ∈ content.toList.tails, ∃ t, closeTag s = .ok (tag, t)
  := by
  constructor
  · rintro ⟨text, htext, front, back, hcontent⟩
    use text ++ back
    constructor
    · rw [List.mem_tails, ← hcontent, List.append_assoc]
      apply List.suffix_append
    · exact ⟨back, closeTag_append htag htext back⟩
  · rintro ⟨s, hs, t, hclose⟩
    obtain ⟨text, htext, rfl⟩ := closeTag_eq_ok hclose
    refine ⟨text, htext, ?_⟩
    exact (List.prefix_append text t).isInfix.trans ((List.mem_tails _ _).mp hs).isInfix

/-- A closing tag has no opening angle bracket but at its start. -/
theorem exists_cons_of_isClosingTag {text : List Char} (h : IsClosingTag tag text) :
  ∃ rest, text = '<' :: rest ∧ '<' ∉ rest
  := by
  obtain ⟨name, gap, rfl, hname, hgap⟩ := h
  refine ⟨_, rfl, ?_⟩
  intro hmem
  rcases List.mem_cons.mp hmem with hslash | hmem
  · cases hslash
  rcases List.mem_append.mp hmem with hmem | hmem
  · have hlower : '<' ∈ tag.toList := by
      rw [← hname]
      exact List.mem_map.mpr ⟨'<', hmem, by decide⟩
    exact not_mem_tail_closer htag (.tail _ hlower)
  · rcases List.mem_append.mp hmem with hmem | hmem
    · cases hgap '<' hmem
    · cases List.mem_singleton.mp hmem

/-- Where a text without a closing tag is followed by one, none starts before that one: its rest
would have an angle bracket in it. -/
theorem eq_of_append_closingTag (h : ¬HoldsClosingTag tag content) {t text s : List Char}
    (htext : IsClosingTag tag text) (happend : t ++ (text ++ s) = content.toList ++ closeTagHtml tag) :
  t = content.toList
  := by
  obtain ⟨rest, hrest, hangle⟩ := exists_cons_of_isClosingTag htag htext
  obtain ⟨end', hend, hangle'⟩ :=
    exists_cons_of_isClosingTag htag (isClosingTag_closeTagHtml htag)
  rcases List.append_eq_append_iff.mp happend with ⟨a, hcontent, ha⟩ | ⟨c, ht, hc⟩
  · rcases List.append_eq_append_iff.mp ha with ⟨b, rfl, -⟩ | ⟨b, hb, hs⟩
    · exact absurd ⟨text, htext, t, b, by rw [hcontent, List.append_assoc]⟩ h
    · cases b with
      | nil =>
        rw [List.append_nil] at hb
        exact absurd ⟨text, htext, t, [], by rw [hcontent, hb, List.append_nil]⟩ h
      | cons d b =>
        cases a with
        | nil => rw [hcontent, List.append_nil]
        | cons e a =>
          obtain ⟨rfl, -⟩ := List.cons.inj (hend.symm.trans hs)
          obtain ⟨-, rfl⟩ := List.cons.inj (hrest.symm.trans hb)
          exact absurd (List.mem_append_right a (.head b)) hangle
  · cases c with
    | nil => rw [ht, List.append_nil]
    | cons d c =>
      obtain ⟨-, rfl⟩ := List.cons.inj (hend.symm.trans hc)
      rw [hrest] at hangle'
      exact absurd (List.mem_append_right c (.head _)) hangle'

/-- A text without a closing tag is not read up to the one after it if something in it looks like
one. -/
theorem refuses_rawBody (h : ¬HoldsClosingTag tag content) (hcloser : HoldsCloser tag content) :
  Refuses (rawBody tag) (content.toList ++ closeTagHtml tag)
  := by
  cases hbody : rawBody tag (content.toList ++ closeTagHtml tag) with
  | error u => exact ⟨u, hbody⟩
  | ok p =>
    obtain ⟨ns, u, hraw, hrest⟩ := Reader.bind_eq_ok hbody
    obtain ⟨_, v, hclose, -⟩ := Reader.bind_eq_ok hrest
    obtain ⟨t, happend, -, hnone⟩ := rawText_eq_ok hraw
    obtain ⟨text, htext, rfl⟩ := closeTag_eq_ok (closeTagOf_eq_ok hclose)
    rw [eq_of_append_closingTag htag h htext happend, String.ofList_toList] at hnone
    exact absurd hcloser hnone

end

/-! ### Raw elements -/

/-- The names of the raw elements are tags. -/
theorem isTag_of_raw :
  ∀ tag ∈ rawTags, isTag tag
  := by
  decide

section

variable {tag content : String} (htag : tag ∈ rawTags)

/-- An element with raw text is its opening tag, the text and its closing tag. -/
theorem toList_raw (tag content : String) :
  ("<" ++ tag ++ ">" ++ content ++ "</" ++ tag ++ ">").toList
    = openTagHtml tag .empty ++ (content.toList ++ closeTagHtml tag)
  := by
  have hattributes : Attributes.empty.writeHtml.toList = [] := by decide
  simp [openTagHtml, closeTagHtml, closer, hattributes]

include htag

/-- After the opening tag of a raw element its text is read. -/
theorem element_raw_eq (s : List Char) :
  element (openTagHtml tag .empty ++ s)
    = (do return ⟨tag, .empty, ← rawBody tag⟩ : Reader Element) s
  := by
  have hnames : ∀ name ∈ Attributes.empty.names, isAttributeName name :=
    fun _ hname => absurd hname List.not_mem_nil
  rw [element_append (isTag_of_raw tag htag) hnames, if_neg (not_mem_voidTags_of_raw tag htag),
    if_pos htag]

theorem toList_raw_eq_cons (content : String) :
  ∃ c t, ("<" ++ tag ++ ">" ++ content ++ "</" ++ tag ++ ">").toList = '<' :: c :: t ∧ c ≠ '!'
  := by
  obtain ⟨c, cs, hcons, hc, -⟩ := isTag_iff.mp (isTag_of_raw tag htag)
  rw [toList_raw, openTagHtml, hcons]
  refine ⟨c, _, rfl, ?_⟩
  rintro rfl
  cases hc

/-- A raw element is read with all of its text if nothing in the text looks like its closing tag. -/
theorem parse_raw (h : ¬HoldsCloser tag content) :
  parse ("<" ++ tag ++ ">" ++ content ++ "</" ++ tag ++ ">")
    = .ok ⟨tag, .empty, rawChildren content⟩
  := by
  obtain ⟨c, t, hcons, hc⟩ := toList_raw_eq_cons htag content
  apply parse_of_element hcons hc
  have hbody := rawBody_append (isTag_of_raw tag htag) h []
  rw [List.append_nil] at hbody
  rw [toList_raw, element_raw_eq htag, Reader.bind_ok hbody]
  rfl

/-- A text without a closing tag in which something looks like one cannot be read. -/
theorem parse_raw_ne_ok (h : ¬HoldsClosingTag tag content) (hcloser : HoldsCloser tag content)
    (e : Element) :
  parse ("<" ++ tag ++ ">" ++ content ++ "</" ++ tag ++ ">") ≠ .ok e
  := by
  obtain ⟨c, t, hcons, hc⟩ := toList_raw_eq_cons htag content
  apply parse_ne_ok_of_refuses hcons hc
  rw [toList_raw]
  apply Reader.refuses_of_eq (element_raw_eq htag _)
  exact (refuses_rawBody (isTag_of_raw tag htag) h hcloser).bind

/-- Between its tags the text of a raw element that holds no closing tag is read if and only if
nothing in it looks like one, and then it is all of the element. -/
theorem parse_raw_iff (h : ¬HoldsClosingTag tag content) (e : Element) :
  parse ("<" ++ tag ++ ">" ++ content ++ "</" ++ tag ++ ">") = .ok e
    ↔ ¬HoldsCloser tag content ∧ e = ⟨tag, .empty, rawChildren content⟩
  := by
  by_cases hcloser : HoldsCloser tag content
  · exact iff_of_false (parse_raw_ne_ok htag h hcloser e) fun hright => hright.1 hcloser
  · rw [parse_raw htag hcloser, Except.ok.injEq]
    exact ⟨fun heq => ⟨hcloser, heq.symm⟩, fun hright => hright.2.symm⟩

end

/-- Markup, another closing tag and half a closing tag are text. -/
theorem parse_raw_iff_markup :
  let content := "<b>&amp;</script ></st"
  ¬HoldsClosingTag "style" content
    ∧ parse ("<" ++ "style" ++ ">" ++ content ++ "</" ++ "style" ++ ">")
      = .ok ⟨"style", .empty, [.text content]⟩
  := by
  intro content
  have hcloser : ¬HoldsCloser "style" content := by
    rw [HoldsCloser]
    decide
  have hnone : ¬HoldsClosingTag "style" content := mt HoldsClosingTag.holdsCloser hcloser
  have hchildren : rawChildren content = [.text content] := by
    rw [rawChildren, if_neg (by decide)]
  use hnone
  rw [← hchildren]
  exact (parse_raw_iff (by decide) hnone _).mpr ⟨hcloser, rfl⟩

/-- A longer tag is no closing tag, but it looks like one, and the text is not read to its end. -/
theorem not_parse_raw :
  let content := "</scripts>"
  ¬HoldsClosingTag "script" content
    ∧ ∀ e, parse ("<" ++ "script" ++ ">" ++ content ++ "</" ++ "script" ++ ">") ≠ .ok e
  := by
  intro content
  have hcloser : HoldsCloser "script" content := by
    rw [HoldsCloser]
    decide
  have hnone : ¬HoldsClosingTag "script" content := by
    rw [holdsClosingTag_iff (by decide)]
    rintro ⟨s, hs, t, hclose⟩
    have hread : ∀ s ∈ content.toList.tails,
        ((closeTag s).toOption.map Prod.fst) ≠ some "script" := by
      decide +kernel
    apply hread s hs
    rw [hclose]
    rfl
  exact ⟨hnone, parse_raw_ne_ok (by decide) hnone hcloser⟩

end Hypertext.Html
