import Hypertext.Proofs.Html.Tag
import Hypertext.Html.WellFormed

/-!
# The text of raw elements

The text of a raw element goes up to the first place that looks like its closing tag.  So it is read
as it was written if no such place is in it, and none is in a text that was read.
-/

namespace Hypertext.Html

open Grammar
open Reader (Refuses)

/-! ### First places -/

theorem splitWhere_of_passes {p : List Char → Bool} {s : List Char} (h : p s = true) :
  splitWhere p s = some ([], s)
  := by
  cases s with
  | nil => rw [splitWhere, if_pos h]
  | cons c cs => rw [splitWhere, if_pos h]

/-- A text is split at a place where the test is passed for the first time. -/
theorem splitWhere_append {p : List Char → Bool} {t u : List Char} (hu : p u = true)
    (hfirst : ∀ v, v <:+ t → v ≠ [] → p (v ++ u) = false) :
  splitWhere p (t ++ u) = some (t, u)
  := by
  induction t with
  | nil => apply splitWhere_of_passes hu
  | cons c t ih =>
    have hc : ¬p (c :: (t ++ u)) = true :=
      Bool.eq_false_iff.mp (hfirst (c :: t) List.suffix_rfl (List.cons_ne_nil c t))
    have htail := ih fun v hv => hfirst v (hv.trans (List.suffix_cons c t))
    rw [List.cons_append, splitWhere, if_neg hc, htail]
    rfl

/-- The place where a text is split is the first one where the test is passed. -/
theorem passes_first_of_splitWhere {p : List Char → Bool} {s t u : List Char}
    (h : splitWhere p s = some (t, u)) :
  p u = true ∧ ∀ v, v <:+ t → v ≠ [] → p (v ++ u) = false
  := by
  have hnil : ∀ v : List Char, v <:+ [] → v ≠ [] → p (v ++ u) = false :=
    fun v hv hne => absurd (List.suffix_nil.mp hv) hne
  induction s generalizing t with
  | nil =>
    rw [splitWhere] at h
    split at h
    · next hp =>
      obtain ⟨rfl, rfl⟩ := Prod.mk.inj (Option.some.inj h)
      exact ⟨hp, hnil⟩
    · cases h
  | cons c cs ih =>
    rw [splitWhere] at h
    split at h
    · next hp =>
      obtain ⟨rfl, rfl⟩ := Prod.mk.inj (Option.some.inj h)
      exact ⟨hp, hnil⟩
    · next hp =>
      obtain ⟨⟨t', u'⟩, hsplit, hpair⟩ := Option.map_eq_some_iff.mp h
      obtain ⟨rfl, rfl⟩ := Prod.mk.inj hpair
      obtain ⟨hu, hfirst⟩ := ih hsplit
      refine ⟨hu, ?_⟩
      intro v hv hne
      rcases List.suffix_cons_iff.mp hv with rfl | hv
      · rw [List.cons_append, append_of_splitWhere hsplit]
        apply Bool.eq_false_iff.mpr hp
      · apply hfirst v hv hne

/-- A text is split at the first place where a test passes. -/
theorem splitWhere_eq_some_iff {p : List Char → Bool} {s t u : List Char} :
  splitWhere p s = some (t, u)
    ↔ t ++ u = s ∧ p u = true ∧ ∀ v, v <:+ t → v ≠ [] → p (v ++ u) = false
  := by
  constructor
  · intro h
    exact ⟨append_of_splitWhere h, passes_first_of_splitWhere h⟩
  · rintro ⟨rfl, hu, hfirst⟩
    apply splitWhere_append hu hfirst

/-- A text is read up to the first place where the test is passed, and not further. -/
theorem upTo_eq_ok_iff {p : List Char → Bool} {s t u : List Char} :
  upTo p s = .ok (t, u)
    ↔ t ++ u = s ∧ p u = true ∧ ∀ v, v <:+ t → v ≠ [] → p (v ++ u) = false
  := by
  rw [← splitWhere_eq_some_iff, upTo]
  cases splitWhere p s with
  | none => simp
  | some r => simp

/-! ### Closing tags in a text -/

/-- A text starts with another one in any case if it does so in lower case. -/
theorem startsWithAnyCase_iff {text s : List Char} :
  startsWithAnyCase text s ↔ text <+: s.map Char.toLower
  := by
  rw [startsWithAnyCase, beq_iff_eq, List.map_take, List.prefix_iff_eq_take, eq_comm]

/-- The start of a closing tag is in lower case. -/
theorem map_toLower_closer {tag : String} (h : isTag tag) :
  (closer tag).map Char.toLower = closer tag
  := by
  rw [closer, List.map_cons, List.map_cons, map_toLower_of_isTag h]
  rfl

/-- A closing tag starts with its only angle bracket. -/
theorem not_mem_tail_closer {tag : String} (h : isTag tag) :
  '<' ∉ '/' :: tag.toList
  := by
  obtain ⟨c, cs, htag, hc, hcs⟩ := isTag_iff.mp h
  rw [htag]
  intro hmem
  rcases List.mem_cons.mp hmem with hslash | hmem
  · cases hslash
  · rcases List.mem_cons.mp hmem with rfl | hmem
    · cases hc
    · cases (hcs '<' hmem).1

/-- Between a text and a closing tag after it there is no other place that looks like the closing
tag.  One that begins in the text and ends outside of it would have an angle bracket inside. -/
theorem not_startsWithAnyCase {tag content : String} (htag : isTag tag)
    (h : ¬HoldsCloser tag content) {v : List Char} (hv : v <:+ content.toList) (hne : v ≠ [])
    (s : List Char) :
  startsWithAnyCase (closer tag) (v ++ (closer tag ++ s)) = false
  := by
  rw [Bool.eq_false_iff, Ne, startsWithAnyCase_iff, List.map_append, List.map_append,
    map_toLower_closer htag]
  intro hprefix
  have hself := List.prefix_append (v.map Char.toLower)
    (closer tag ++ s.map Char.toLower)
  have houtside : ¬closer tag <+: v.map Char.toLower := fun hinside =>
    h (List.infix_iff_prefix_suffix.mpr ⟨_, hinside, hv.map Char.toLower⟩)
  obtain hinside | ⟨w, hw⟩ := List.prefix_or_prefix_of_prefix hprefix hself
  · exact houtside hinside
  · rw [← hw, List.prefix_append_right_inj, hw] at hprefix
    cases w with
    | nil =>
      rw [List.append_nil] at hw
      exact houtside (hw ▸ List.prefix_rfl)
    | cons d w =>
      obtain ⟨rfl, -⟩ := List.cons_prefix_cons.mp hprefix
      obtain ⟨c, cs, rfl⟩ := List.exists_cons_of_ne_nil hne
      obtain ⟨-, htail⟩ := List.cons.inj hw
      apply not_mem_tail_closer htag
      rw [← htail]
      exact List.mem_append_right _ (.head w)

/-- A text before which there is no place that looks like its closing tag does not hold one. -/
theorem not_holdsCloser {tag : String} {t u : List Char}
    (h : ∀ v, v <:+ t → v ≠ [] → startsWithAnyCase (closer tag) (v ++ u) = false) :
  ¬HoldsCloser tag (String.ofList t)
  := by
  intro hholds
  rw [HoldsCloser, String.toList_ofList] at hholds
  obtain ⟨w, hprefix, hsuffix⟩ := List.infix_iff_prefix_suffix.mp hholds
  obtain ⟨v, hv, rfl⟩ := List.suffix_map_iff.mp hsuffix
  have hne : v ≠ [] := by
    rintro rfl
    cases List.prefix_nil.mp hprefix
  have hstarts : startsWithAnyCase (closer tag) (v ++ u) := by
    rw [startsWithAnyCase_iff, List.map_append]
    exact hprefix.trans (List.prefix_append _ _)
  rw [h v hv hne] at hstarts
  cases hstarts

/-! ### Raw texts -/

/-- The children of a raw element with a text. -/
def rawChildren (content : String) : List Node := if content = "" then [] else [.text content]

/-- The text of a raw element is read up to what looks like its closing tag. -/
theorem rawText_eq (tag : String) :
  rawText tag = (do return rawChildren (String.ofList (← upTo (startsWithAnyCase (closer tag)))))
  := by
  rw [rawText]
  congr 1
  funext cs
  rw [rawChildren]
  cases cs with
  | nil => rfl
  | cons c cs => simp

/-- The text of a raw element is read up to its closing tag. -/
theorem rawBody_append {tag content : String} (htag : isTag tag) (h : ¬HoldsCloser tag content)
    (s : List Char) :
  rawBody tag (content.toList ++ (closeTagHtml tag ++ s)) = .ok (rawChildren content, s)
  := by
  have happend : closeTagHtml tag ++ s = closer tag ++ '>' :: s := by
    rw [closeTagHtml, List.append_assoc, List.singleton_append]
  have hclose : startsWithAnyCase (closer tag) (closer tag ++ '>' :: s) = true := by
    rw [startsWithAnyCase_iff, List.map_append, map_toLower_closer htag]
    apply List.prefix_append
  have hupTo : upTo (startsWithAnyCase (closer tag)) (content.toList ++ (closeTagHtml tag ++ s))
      = .ok (content.toList, closeTagHtml tag ++ s) := by
    rw [happend, upTo_eq_ok_iff]
    exact ⟨rfl, hclose, fun v hv hne => not_startsWithAnyCase htag h hv hne ('>' :: s)⟩
  have hraw : rawText tag (content.toList ++ (closeTagHtml tag ++ s))
      = .ok (rawChildren content, closeTagHtml tag ++ s) := by
    rw [rawText_eq, Reader.bind_ok hupTo, String.ofList_toList]
    rfl
  rw [rawBody, Reader.bind_ok hraw, Reader.bind_ok (closeTagOf_append htag s)]
  rfl

/-- What is read of a raw element is its text up to the first place that looks like the closing
tag. -/
theorem rawText_eq_ok {tag : String} {s u : List Char} {ns : List Node}
    (h : rawText tag s = .ok (ns, u)) :
  ∃ t, t ++ u = s ∧ ns = rawChildren (String.ofList t) ∧ ¬HoldsCloser tag (String.ofList t)
  := by
  rw [rawText_eq] at h
  obtain ⟨t, v, hupTo, hpure⟩ := Reader.bind_eq_ok h
  obtain ⟨rfl, rfl⟩ := Prod.mk.inj (Except.ok.inj hpure)
  obtain ⟨happend, -, hfirst⟩ := upTo_eq_ok_iff.mp hupTo
  exact ⟨t, happend, rfl, not_holdsCloser hfirst⟩

/-- The text of a raw element that was read does not hold its closing tag. -/
theorem gives_rawText (tag : String) :
  (rawText tag).Gives fun ns =>
    ∃ content, ns = rawChildren content ∧ ¬HoldsCloser tag content
  := by
  intro s ns u h
  obtain ⟨t, -, hns, hcloser⟩ := rawText_eq_ok h
  exact ⟨String.ofList t, hns, hcloser⟩

end Hypertext.Html
