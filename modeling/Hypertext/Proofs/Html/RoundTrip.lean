import Hypertext.Html.Parser
import Hypertext.Proofs.Html.Charset
import Hypertext.Proofs.Html.Element
import Hypertext.Proofs.Html.Given
import Hypertext.Proofs.Html.Merged

/-!
# Documents read back

What is written for a tree is read as the merged tree, unless an element of it is void: then it is
not read at all.  With a doctype in front and an encoding declared this is no different, except that
the declaration is itself a void element.
-/

namespace Hypertext

namespace Html

open Grammar
open Reader (Ahead Refuses)

/-! ### Around the root -/

/-- A tag is no doctype. -/
theorem refuses_doctype {c : Char} (hc : c ≠ '!') (s : List Char) :
  Refuses doctype ('<' :: c :: s)
  := by
  have hstarts :
      startsWithAnyCase ['<', '!', 'd', 'o', 'c', 't', 'y', 'p', 'e'] ('<' :: c :: s) = false := by
    rw [Bool.eq_false_iff, Ne, startsWithAnyCase_iff, List.map_cons, List.map_cons]
    intro hprefix
    have hlower := (List.cons_prefix_cons.mp (List.cons_prefix_cons.mp hprefix).2).1
    have hletter : ¬c.isAlpha := by
      rw [← Char.isAlpha_toLower_eq_isAlpha, ← hlower]
      decide
    exact hc (hlower.trans (toLower_of_not_isAlpha hletter)).symm
  apply Refuses.bind
  use '<' :: c :: s
  rw [exactlyAnyCase, hstarts]
  rfl

/-- Where nothing can be dropped nothing is. -/
theorem misc_of_refuses {s : List Char} (h : Refuses ((Reader.spaces1.or comment).or doctype) s) :
  misc s = .ok ((), s)
  := by
  rw [misc, Reader.bind_ok (congrArg Except.ok (Reader.repetition_of_refuses h))]
  rfl

/-- There is nothing to be dropped at the end. -/
theorem misc_nil :
  misc [] = .ok ((), [])
  := by
  have hdoctype : Refuses doctype [] := Refuses.bind ⟨[], rfl⟩
  apply misc_of_refuses
  apply Refuses.or _ hdoctype
  apply Refuses.or (Reader.refuses_spaces1 .nil) (refuses_comment_of_ahead .nil)

/-- Before a tag there is nothing to be dropped. -/
theorem refuses_dropped {c : Char} (hc : c ≠ '!') (s : List Char) :
  Refuses ((Reader.spaces1.or comment).or doctype) ('<' :: c :: s)
  := by
  apply Refuses.or _ (refuses_doctype hc s)
  apply Refuses.or _ (refuses_comment hc s)
  apply Reader.refuses_spaces1 (.cons (by decide))

/-- Whether a text is dropped before a tag. -/
def IsDropped (front : List Char) : Prop :=
  ∀ c s, c ≠ '!' → misc (front ++ '<' :: c :: s) = .ok ((), '<' :: c :: s)

/-- The empty text is dropped before a tag. -/
theorem isDropped_nil :
  IsDropped []
  := fun _ s hc => misc_of_refuses (refuses_dropped hc s)

theorem doctype_append (s : List Char) :
  doctype (Element.doctype.toList ++ s) = .ok ((), s)
  := by
  have hrun : Reader.run1 (· ≠ '>') ([' ', 'h', 't', 'm', 'l'] ++ '>' :: s)
      = .ok ([' ', 'h', 't', 'm', 'l'], '>' :: s) :=
    Reader.run1_append nofun (Reader.forall_mem_of_all (by decide)) (.cons (by decide))
  have hname : exactlyAnyCase ['<', '!', 'd', 'o', 'c', 't', 'y', 'p', 'e']
      (Element.doctype.toList ++ s) = .ok ((), [' ', 'h', 't', 'm', 'l'] ++ '>' :: s) := rfl
  rw [doctype, Reader.bind_ok hname, Reader.bind_ok hrun, Reader.char_cons]

/-- A doctype is dropped before a tag. -/
theorem isDropped_doctype :
  IsDropped Element.doctype.toList
  := by
  intro c s hc
  have hspaces : Refuses Reader.spaces1 (Element.doctype.toList ++ '<' :: c :: s) :=
    Reader.refuses_spaces1 (.cons (by decide))
  have hcomment : Refuses comment (Element.doctype.toList ++ '<' :: c :: s) :=
    (Reader.refuses_exactly rfl).bind
  have hitem := (Reader.or_of_refuses (hspaces.or hcomment)).trans (doctype_append ('<' :: c :: s))
  rw [misc, Reader.bind_ok (congrArg Except.ok (Reader.repetition_of_ok hitem)),
    Reader.repetition_of_refuses (refuses_dropped hc s)]
  rfl

/-! ### Documents -/

/-- A text is read if it is read as a document up to its end. -/
theorem parse_eq_ok_iff {s : String} {e : Element} :
  parse s = .ok e ↔ document s.toList = .ok (e, [])
  := by
  rw [parse]
  constructor
  · intro h
    split at h
    · cases h
    · next root rest hdocument =>
      split at h
      · next hempty =>
        obtain rfl := Except.ok.inj h
        rw [hdocument, List.isEmpty_iff.mp hempty]
      · cases h
  · intro h
    rw [h]
    rfl

/-- What is dropped before the root does not count. -/
theorem document_append {front : List Char} (hfront : IsDropped front) {c : Char} (hc : c ≠ '!')
    (s : List Char) :
  document (front ++ '<' :: c :: s)
    = (do let root ← element; misc; return root : Reader Element) ('<' :: c :: s)
  := by
  rw [document, Reader.bind_ok (hfront c s hc)]

/-- A tree that was read is such as reading gives. -/
theorem isRead_of_parse {s : String} {e : Element} (h : parse s = .ok e) :
  e.IsRead
  := by
  have hgives : document.Gives Element.IsRead := by
    rw [document]
    apply Reader.gives_bind
    intro _
    refine gives_element.bind ?_
    intro e he
    apply Reader.gives_bind
    intro _
    apply Reader.gives_pure he
  apply hgives s.toList e [] (parse_eq_ok_iff.mp h)

section

variable {o : HtmlOptions} (ho : o.verbatim = rawTags) {front : String}
  (hfront : IsDropped front.toList) {e e' : Element} (hwell : e.Every WellFormed)

include ho hfront hwell

/-- What is written for a tree without empty and neighbouring texts is read as that tree, unless an
element of it is void.  If the root is void its closing tag is left over, and if another element is,
the root is not read at all. -/
theorem document_writeHtml (hjoined : e.Every (Joined ·.children)) :
  document (front ++ e.writeHtml o).toList = .ok (e', []) ↔ e.IsVoidFree ∧ e' = e
  := by
  obtain ⟨c, t, hwrite, hc, -⟩ := writeHtml_eq_cons o hwell.root.tag
  have hdocument : document (front ++ e.writeHtml o).toList
      = (do let root ← element; misc; return root : Reader Element)
        ((e.writeHtml o).toList ++ []) := by
    rw [String.toList_append, List.append_nil, hwrite]
    apply document_append hfront hc
  rw [hdocument]
  by_cases hfree : e.IsVoidFree
  · rw [Reader.bind_ok (element_writeHtml ho hwell hfree hjoined []), Reader.bind_ok misc_nil]
    simp [Reader.pure_apply, hfree, eq_comm]
  · constructor
    · intro h
      by_cases hvoid : e.tag ∈ voidTags
      · have hmisc : misc (closeTagHtml e.tag ++ []) = .ok ((), closeTagHtml e.tag ++ []) :=
          misc_of_refuses (refuses_dropped (by decide) _)
        rw [Reader.bind_ok (element_void o hwell.root hvoid []), Reader.bind_ok hmisc] at h
        cases h
      · apply absurd h
        apply Refuses.ne_ok
        apply (refuses_element ho hwell hjoined hfree hvoid []).bind
    · rintro ⟨h, -⟩
      exact absurd h hfree

/-- What is written for a tree is read as the merged tree, unless an element of it is void. -/
theorem parse_writeHtml :
  parse (front ++ e.writeHtml o) = .ok e' ↔ e.IsVoidFree ∧ e' = e.merged
  := by
  rw [parse_eq_ok_iff, ← e.writeHtml_merged,
    document_writeHtml ho hfront (Element.every_wellFormed_merged hwell) e.every_joined_merged,
    Element.isVoidFree_merged_iff]

end

section

variable {e e' : Element}

/-- What is written for a tree without a doctype is read as the merged tree, unless an element is
void. -/
theorem parse_toFragment_iff (hwell : e.Every WellFormed) :
  parse e.toFragment = .ok e' ↔ e.IsVoidFree ∧ e' = e.merged
  := by
  have hfragment : e.toFragment = "" ++ e.writeHtml .fragment := String.empty_append.symm
  have hfront : IsDropped "".toList := isDropped_nil
  rw [hfragment]
  apply parse_writeHtml rfl hfront hwell

/-- With a doctype and an encoding a tree reads back if it does without them and is not a document
with a `head`. -/
theorem parse_toHtml_iff {o : HtmlOptions} (ho : o.verbatim = rawTags) (hdoctype : o.doctype)
    (hwell : e.Every WellFormed) :
  parse (e.toHtml o) = .ok e' ↔ e.IsVoidFree ∧ ¬e.HasHead ∧ e' = e.merged
  := by
  rw [Element.toHtml, if_pos hdoctype,
    parse_writeHtml ho isDropped_doctype (Element.every_wellFormed_withCharset hwell),
    Element.isVoidFree_withCharset_iff, and_assoc]
  apply and_congr_right
  intro _
  apply and_congr_right
  intro hhead
  rw [Element.withCharset_of_not_hasHead hhead]

/-! ### Some documents -/

/-- A text that is an element is read as that element. -/
theorem parse_of_element {s : String} {c : Char} {t : List Char} (hs : s.toList = '<' :: c :: t)
    (hc : c ≠ '!') (h : element s.toList = .ok (e, [])) :
  parse s = .ok e
  := by
  rw [hs] at h
  have hdocument := document_append isDropped_nil hc t
  rw [parse_eq_ok_iff, hs, ← List.nil_append ('<' :: c :: t), hdocument, Reader.bind_ok h,
    Reader.bind_ok misc_nil]
  rfl

/-- A text that starts with a tag is not read if no element can be read of it. -/
theorem parse_ne_ok_of_refuses {s : String} {c : Char} {t : List Char}
    (hs : s.toList = '<' :: c :: t) (hc : c ≠ '!') (h : Refuses element s.toList) :
  parse s ≠ .ok e
  := by
  rw [hs] at h
  rw [Ne, parse_eq_ok_iff, hs, ← List.nil_append ('<' :: c :: t), document_append isDropped_nil hc]
  apply h.bind.ne_ok

/-- A void element is read without a closing tag. -/
theorem parse_void :
  parse "<br>" = .ok ⟨"br", .empty, []⟩
  := by
  have happend : "<br>".toList = openTagHtml "br" .empty ++ [] := by decide
  have hcons : "<br>".toList = '<' :: 'b' :: ['r', '>'] := by decide
  apply parse_of_element hcons (by decide)
  rw [happend, element_append (by decide) (by decide), if_pos (by decide)]
  rfl

/-- A comment is dropped, but the texts around it are not joined. -/
theorem parse_comment :
  parse "<p>a<!---->b</p>" = .ok ⟨"p", .empty, [.text "a", .text "b"]⟩
  := by
  have ha : "a" ≠ "" := by decide
  have hb : "b" ≠ "" := by decide
  have hcomment (s : List Char) : comment ("<!---->".toList ++ s) = .ok ((), s) := rfl
  have hahead (s : List Char) : Ahead (· = '<') ("<!---->".toList ++ s) := .cons rfl
  have hclose : Ahead (· = '<') (closeTagHtml "p" ++ []) := .cons rfl
  have hafter := content_text hb hclose (content_closeTagHtml "p" [])
  have hcontent := content_text ha (hahead _) ((content_of_comment (hcomment _)).trans hafter)
  have happend : "<p>a<!---->b</p>".toList = openTagHtml "p" .empty ++ ((escapeText "a").toList
      ++ ("<!---->".toList ++ ((escapeText "b").toList ++ (closeTagHtml "p" ++ [])))) := by
    decide
  have hcons : "<p>a<!---->b</p>".toList = '<' :: 'p' :: ">a<!---->b</p>".toList := by decide
  apply parse_of_element hcons (by decide)
  rw [happend, element_append (by decide) (by decide), if_neg (by decide), if_neg (by decide)]
  apply Reader.bind_ok
  rw [body, Reader.bind_ok hcontent, Reader.bind_ok (closeTagOf_append (by decide) [])]
  rfl

/-- A document with an empty `head` is read. -/
theorem parse_head :
  parse "<html><head></head></html>" = .ok ⟨"html", .empty, [.element (.ofTag "head")]⟩
  := by
  let document : Element := ⟨"html", .empty, [.element (.ofTag "head")]⟩
  have hhead : (Element.ofTag "head").IsReadable :=
    ⟨by decide, by decide, by decide, fun h => absurd h (by decide), trivial⟩
  have hdocument : document.IsReadable :=
    ⟨by decide, by decide, by decide, fun h => absurd h (by decide), hhead, trivial⟩
  have hfragment : document.toFragment = "<html><head></head></html>" := by decide
  rw [← hfragment]
  exact (parse_toFragment_iff hdocument.every_wellFormed).mpr ⟨hdocument.isVoidFree, rfl⟩

/-! ### Reading back -/

/-- What is written for a readable tree is read as the merged tree. -/
theorem parse_toFragment_of_isReadable (h : e.IsReadable) :
  parse e.toFragment = .ok e.merged
  := (parse_toFragment_iff h.every_wellFormed).mpr ⟨h.isVoidFree, rfl⟩

/-- A tree with raw text, quotes and an empty text reads back, merged. -/
theorem parse_toFragment_of_isReadable_script :
  let script : Element := ⟨"script", .empty, [.text "1 < 2"]⟩
  let title : Attributes := ⟨[("title", "it's \"&\"")], by decide⟩
  let e : Element := ⟨"div", title, [.text "a <", .text "", .text " b", .element script]⟩
  e.IsReadable ∧ parse e.toFragment = .ok ⟨"div", title, [.text "a < b", .element script]⟩
  := by
  intro script title e
  have hscript : script.IsReadable := by
    refine ⟨by decide, by decide, by decide, fun _ => ⟨by decide, ?_⟩, trivial, trivial⟩
    rw [HoldsCloser]
    decide
  have hreadable : e.IsReadable := by
    refine ⟨by decide, by decide, by decide, fun h => absurd h (by decide), ?_⟩
    exact ⟨trivial, trivial, trivial, hscript, trivial⟩
  have hmerged : e.merged = ⟨"div", title, [.text "a < b", .element script]⟩ := by
    rfl
  refine ⟨hreadable, ?_⟩
  rw [← hmerged]
  apply parse_toFragment_of_isReadable hreadable

/-- A tree that was read reads back if no element of it is void, but with neighbouring texts joined;
as a document it has to have no `head` besides. -/
theorem parse_toHtml_of_parse {s : String} (h : parse s = .ok e) :
  (∀ e', parse e.toFragment = .ok e' ↔ e.IsVoidFree ∧ e' = e.merged)
    ∧ (parse e.toFragment = .ok e ↔ e.IsVoidFree ∧ e.IsApart)
    ∧ ∀ e', parse (e.toHtml {}) = .ok e' ↔ e.IsVoidFree ∧ ¬e.HasHead ∧ e' = e.merged
  := by
  have hread := isRead_of_parse h
  have hwell := hread.every_wellFormed
  refine ⟨fun e' => parse_toFragment_iff hwell, ?_, fun e' => parse_toHtml_iff rfl rfl hwell⟩
  rw [parse_toFragment_iff hwell, ← Element.merged_eq_self_iff hread.every_nonempty, eq_comm]

/-- Texts that a comment kept apart are one when the tree is read again. -/
theorem parse_toHtml_of_parse_comment :
  let e : Element := ⟨"p", .empty, [.text "a", .text "b"]⟩
  let joined : Element := ⟨"p", .empty, [.text "ab"]⟩
  parse "<p>a<!---->b</p>" = .ok e
    ∧ parse e.toFragment = .ok joined ∧ parse (e.toHtml {}) = .ok joined
  := by
  intro e joined
  have hvoid : e.IsVoidFree := by
    refine .intro (by decide) ?_
    intro child hchild
    simp [e] at hchild
  have hhead : ¬e.HasHead := by
    rintro ⟨htag, -⟩
    revert htag
    decide
  obtain ⟨hfragment, -, hdocument⟩ := parse_toHtml_of_parse parse_comment
  exact ⟨parse_comment, (hfragment joined).mpr ⟨hvoid, rfl⟩,
    (hdocument joined).mpr ⟨hvoid, hhead, rfl⟩⟩

end

/-- A void element is not read back, texts around a comment are read back as one, and a document
with a `head` is not read back from what is written with a doctype. -/
theorem not_parse_toHtml_of_parse :
  (∃ e, parse "<br>" = .ok e ∧ ∀ e', parse e.toFragment ≠ .ok e')
    ∧ (∃ e, parse "<p>a<!---->b</p>" = .ok e ∧ parse e.toFragment ≠ .ok e)
    ∧ ∃ e, parse "<html><head></head></html>" = .ok e ∧ ∀ e', parse (e.toHtml {}) ≠ .ok e'
  := by
  refine ⟨⟨_, parse_void, ?_⟩, ⟨_, parse_comment, ?_⟩, ⟨_, parse_head, ?_⟩⟩
  · intro e' h
    rw [parse_toFragment_iff (isRead_of_parse parse_void).every_wellFormed] at h
    apply h.1.root
    decide
  · intro h
    rw [parse_toFragment_iff (isRead_of_parse parse_comment).every_wellFormed] at h
    have hlength := congrArg (·.children.length) h.2
    cases hlength
  · intro e' h
    rw [parse_toHtml_iff rfl rfl (isRead_of_parse parse_head).every_wellFormed] at h
    exact h.2.1 ⟨rfl, _, .head _, rfl⟩

end Html

end Hypertext
