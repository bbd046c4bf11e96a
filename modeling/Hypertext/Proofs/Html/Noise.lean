import Hypertext.Proofs.Html.Continued
import Hypertext.Proofs.Html.RoundTrip
import Mathlib.Data.List.Infix

/-!
# What stands around the root

`IsNoise` describes the texts that may stand in front of the root element and after it.  They are
exactly the texts that are read and dropped there: noise does not change what is dropped after it,
`misc_append`, and what was dropped is noise, `misc_eq_ok`.  Together with `persists_element` this
says that more noise around a document does not change how it is read.
-/

namespace Hypertext.Html

open Grammar
open Reader (Ahead Refuses Continued)

/-- The name of a doctype, in lower case. -/
abbrev doctypeName : List Char := ['<', '!', 'd', 'o', 'c', 't', 'y', 'p', 'e']

/-- Spaces, comments and doctypes, one after the other.  The words of a comment do not hold its end,
and after the name of a doctype, which is in any case, there is something up to the closing bracket.
-/
inductive IsNoise : List Char → Prop where
  | nil : IsNoise []
  | space {c : Char} {s : List Char} (hc : Reader.isSpace c = true) (h : IsNoise s) : IsNoise (c :: s)
  | comment {words s : List Char} (hwords : ¬['-', '-', '>'] <:+: words) (h : IsNoise s) :
    IsNoise (['<', '!', '-', '-'] ++ (words ++ (['-', '-', '>'] ++ s)))
  | doctype {name words s : List Char}
    (hname : name.map Char.toLower = doctypeName)
    (hne : words ≠ []) (hwords : '>' ∉ words) (h : IsNoise s) :
    IsNoise (name ++ (words ++ '>' :: s))

/-- Noise after noise is noise. -/
theorem IsNoise.append {s t : List Char} (hs : IsNoise s) (ht : IsNoise t) :
  IsNoise (s ++ t)
  := by
  induction hs with
  | nil => apply ht
  | space hc _ ih => apply IsNoise.space hc ih
  | comment hwords _ ih =>
    simp only [List.append_assoc]
    apply IsNoise.comment hwords ih
  | doctype hname hne hwords _ ih =>
    simp only [List.append_assoc, List.cons_append]
    apply IsNoise.doctype hname hne hwords ih

/-- Spaces are noise. -/
theorem isNoise_of_spaces {gap : List Char} (h : ∀ c ∈ gap, Reader.isSpace c = true) :
  IsNoise gap
  := by
  induction gap with
  | nil => exact .nil
  | cons c gap ih =>
    obtain ⟨hc, hgap⟩ := List.forall_mem_cons.mp h
    apply IsNoise.space hc (ih hgap)

/-! ### Comments and doctypes -/

section

variable {words s t : List Char}

/-- In front of the end of a comment there is no other place that looks like it. -/
theorem not_isPrefixOf_dashes (hwords : ¬['-', '-', '>'] <:+: words) {v : List Char}
    (hv : v <:+ words) (hne : v ≠ []) :
  ['-', '-', '>'].isPrefixOf (v ++ (['-', '-', '>'] ++ s)) = false
  := by
  rw [Bool.eq_false_iff]
  intro hprefix
  rcases v with _ | ⟨a, _ | ⟨b, _ | ⟨c, v⟩⟩⟩
  · apply hne rfl
  · simp [List.isPrefixOf] at hprefix
  · simp [List.isPrefixOf] at hprefix
  · simp only [List.cons_append, List.isPrefixOf, Bool.and_eq_true, beq_iff_eq, and_true] at hprefix
    obtain ⟨rfl, rfl, rfl⟩ := hprefix
    apply hwords
    exact (List.prefix_append ['-', '-', '>'] v).isInfix.trans hv.isInfix

/-- A comment is read up to its end. -/
theorem comment_append (hwords : ¬['-', '-', '>'] <:+: words) (s : List Char) :
  comment (['<', '!', '-', '-'] ++ (words ++ (['-', '-', '>'] ++ s))) = .ok ((), s)
  := by
  have hupTo : upTo (['-', '-', '>'].isPrefixOf ·) (words ++ (['-', '-', '>'] ++ s))
      = .ok (words, ['-', '-', '>'] ++ s) := by
    apply upTo_eq_ok_iff.mpr
    exact ⟨rfl, rfl, fun v hv hne => not_isPrefixOf_dashes hwords hv hne⟩
  rw [comment, Reader.bind_ok (Reader.exactly_append _ _), Reader.bind_ok hupTo,
    Reader.exactly_append]

/-- What is read as a comment is one. -/
theorem comment_eq_ok {a : Unit} (h : comment s = .ok (a, t)) :
  ∃ words, ¬['-', '-', '>'] <:+: words
    ∧ s = ['<', '!', '-', '-'] ++ (words ++ (['-', '-', '>'] ++ t))
  := by
  obtain ⟨_, u, hstart, hwords⟩ := Reader.bind_eq_ok h
  obtain ⟨words, v, hupTo, hend⟩ := Reader.bind_eq_ok hwords
  obtain rfl := Reader.exactly_eq_ok hstart
  obtain rfl := Reader.exactly_eq_ok hend
  obtain ⟨rfl, -, hfirst⟩ := upTo_eq_ok_iff.mp hupTo
  refine ⟨words, ?_, rfl⟩
  rintro ⟨front, back, hholds⟩
  have hsuffix : ['-', '-', '>'] ++ back <:+ words := by
    use front
    rw [← hholds, List.append_assoc]
  have hplace := hfirst _ hsuffix (List.cons_ne_nil _ _)
  rw [List.append_assoc] at hplace
  cases hplace

/-- A text is read in any case. -/
theorem exactlyAnyCase_append {text name : List Char} (h : name.map Char.toLower = text)
    (s : List Char) :
  exactlyAnyCase text (name ++ s) = .ok ((), s)
  := by
  have hstarts : startsWithAnyCase text (name ++ s) = true := by
    rw [startsWithAnyCase_iff, List.map_append, h]
    apply List.prefix_append
  have hlength : name.length = text.length := by
    rw [← h, List.length_map]
  rw [exactlyAnyCase, if_pos hstarts, List.drop_left' hlength]

/-- A text that is read in any case stands at the front, in some case. -/
theorem exactlyAnyCase_eq_ok {text : List Char} {a : Unit} (h : exactlyAnyCase text s = .ok (a, t)) :
  ∃ name, name.map Char.toLower = text ∧ s = name ++ t
  := by
  rw [exactlyAnyCase] at h
  split at h
  · next hstarts =>
    obtain ⟨-, rfl⟩ := Prod.mk.inj (Except.ok.inj h)
    rw [startsWithAnyCase, beq_iff_eq] at hstarts
    use s.take text.length, hstarts
    rw [List.take_append_drop]
  · cases h

/-- A doctype is read up to its closing bracket. -/
theorem doctype_words_append {name : List Char} (hname : name.map Char.toLower = doctypeName)
    (hne : words ≠ []) (hwords : '>' ∉ words) (s : List Char) :
  doctype (name ++ (words ++ '>' :: s)) = .ok ((), s)
  := by
  have hrun : Reader.run1 (· ≠ '>') (words ++ '>' :: s) = .ok (words, '>' :: s) := by
    apply Reader.run1_append hne
    · intro c hc
      apply decide_eq_true
      rintro rfl
      apply hwords hc
    · exact .cons (by decide)
  rw [doctype, Reader.bind_ok (exactlyAnyCase_append hname _), Reader.bind_ok hrun,
    Reader.char_cons]

/-- What is read as a doctype is one. -/
theorem doctype_eq_ok {a : Unit} (h : doctype s = .ok (a, t)) :
  ∃ name words, name.map Char.toLower = doctypeName ∧ words ≠ [] ∧ '>' ∉ words
    ∧ s = name ++ (words ++ '>' :: t)
  := by
  obtain ⟨_, u, hstart, hrest⟩ := Reader.bind_eq_ok h
  obtain ⟨words, v, hrun, hend⟩ := Reader.bind_eq_ok hrest
  obtain ⟨name, hname, rfl⟩ := exactlyAnyCase_eq_ok hstart
  obtain rfl := Reader.char_eq_ok hend
  obtain ⟨rfl, hne, hwords⟩ := Reader.run1_eq_ok hrun
  refine ⟨name, words, hname, hne, ?_, rfl⟩
  intro hmem
  apply of_decide_eq_true (hwords '>' hmem)
  rfl

/-- A doctype starts neither like spaces nor like a comment. -/
theorem refuses_before_doctype {name : List Char} (hname : name.map Char.toLower = doctypeName)
    (s : List Char) :
  Refuses (Reader.spaces1.or comment) (name ++ s)
  := by
  obtain ⟨a, name, rfl, ha, hname⟩ := List.map_eq_cons_iff.mp hname
  obtain ⟨b, name, rfl, -, hname⟩ := List.map_eq_cons_iff.mp hname
  obtain ⟨c, name, rfl, hc, -⟩ := List.map_eq_cons_iff.mp hname
  have hspace : Reader.isSpace a = false := by
    rw [Bool.eq_false_iff]
    intro hspace
    simp only [Reader.isSpace, Bool.or_eq_true, decide_eq_true_eq] at hspace
    rcases hspace with ((rfl | rfl) | rfl) | rfl <;> cases ha
  have hdash : ['<', '!', '-', '-'].isPrefixOf (a :: b :: c :: name ++ s) = false := by
    rw [Bool.eq_false_iff]
    intro hprefix
    simp only [List.cons_append, List.isPrefixOf, Bool.and_eq_true, beq_iff_eq] at hprefix
    obtain ⟨-, -, rfl, -⟩ := hprefix
    cases hc
  apply Refuses.or
  · apply Reader.refuses_spaces1 (.cons hspace)
  · apply Refuses.bind
    apply Reader.refuses_exactly hdash

end

/-! ### What is dropped -/

section

variable {s t : List Char}

/-- What can be dropped at the front is dropped. -/
theorem misc_of_ok {a : Unit} (h : ((Reader.spaces1.or comment).or doctype) s = .ok (a, t)) :
  misc s = misc t
  := by
  have hmisc (s : List Char) : misc s
      = .ok ((), (Reader.repetition ((Reader.spaces1.or comment).or doctype) s).2) := rfl
  rw [hmisc, hmisc, Reader.repetition_of_ok h]

/-- Spaces in front do not count. -/
theorem misc_dropWhile (s : List Char) :
  misc (s.dropWhile Reader.isSpace) = misc s
  := by
  cases s with
  | nil => rfl
  | cons c s =>
    by_cases hc : Reader.isSpace c = true
    · have hspaces := Reader.spaces1_cons hc s
      rw [List.dropWhile_cons_of_pos hc, misc_of_ok (Reader.or_of_ok (Reader.or_of_ok hspaces))]
    · rw [List.dropWhile_cons_of_neg hc]

/-- What is dropped after noise is what is dropped without it. -/
theorem misc_append {noise : List Char} (h : IsNoise noise) (s : List Char) :
  misc (noise ++ s) = misc s
  := by
  induction h with
  | nil => rfl
  | @space c noise hc _ ih =>
    rw [← ih, List.cons_append, ← misc_dropWhile, List.dropWhile_cons_of_pos hc, misc_dropWhile]
  | @comment words noise hwords _ ih =>
    have hcomment := comment_append hwords (noise ++ s)
    have hspaces : Refuses Reader.spaces1
        (['<', '!', '-', '-'] ++ (words ++ (['-', '-', '>'] ++ (noise ++ s)))) :=
      Reader.refuses_spaces1 (.cons (by decide))
    rw [← ih, List.append_assoc, List.append_assoc, List.append_assoc]
    apply misc_of_ok (Reader.or_of_ok ((Reader.or_of_refuses hspaces).trans hcomment))
  | @doctype name words noise hname hne hwords _ ih =>
    have hdoctype := doctype_words_append hname hne hwords (noise ++ s)
    have hbefore := refuses_before_doctype hname (words ++ '>' :: (noise ++ s))
    rw [← ih, List.append_assoc, List.append_assoc, List.cons_append]
    apply misc_of_ok ((Reader.or_of_refuses hbefore).trans hdoctype)

/-- Noise is dropped to its end. -/
theorem misc_of_isNoise (h : IsNoise s) :
  misc s = .ok ((), [])
  := by
  rw [← List.append_nil s, misc_append h, misc_nil]

/-- What is dropped at once is noise. -/
theorem exists_isNoise_of_ok {a : Unit} (h : ((Reader.spaces1.or comment).or doctype) s = .ok (a, t)) :
  ∃ noise, IsNoise noise ∧ s = noise ++ t
  := by
  rcases Reader.or_eq_ok h with h | hdoctype
  · rcases Reader.or_eq_ok h with hspaces | hcomment
    · obtain ⟨gap, hgap, rfl⟩ := Reader.exists_gap_of_spaces1 hspaces
      use gap, isNoise_of_spaces hgap
    · obtain ⟨words, hwords, rfl⟩ := comment_eq_ok hcomment
      use ['<', '!', '-', '-'] ++ (words ++ (['-', '-', '>'] ++ [])), .comment hwords .nil
      simp only [List.append_assoc, List.nil_append]
  · obtain ⟨name, words, hname, hne, hwords, rfl⟩ := doctype_eq_ok hdoctype
    use name ++ (words ++ '>' :: []), .doctype hname hne hwords .nil
    simp only [List.append_assoc, List.cons_append, List.nil_append]

/-- What is dropped is noise. -/
theorem misc_eq_ok {a : Unit} (h : misc s = .ok (a, t)) :
  ∃ noise, IsNoise noise ∧ s = noise ++ t
  := by
  obtain rfl : (Reader.repetition ((Reader.spaces1.or comment).or doctype) s).2 = t :=
    congrArg Prod.snd (Except.ok.inj h)
  clear h
  fun_induction Reader.repetition ((Reader.spaces1.or comment).or doctype) s with
  | case1 s _ u hu _ as v hrep ih =>
    obtain ⟨noise, hnoise, rfl⟩ := exists_isNoise_of_ok hu
    rw [hrep] at ih
    obtain ⟨more, hmore, rfl⟩ := ih
    use noise ++ more, hnoise.append hmore
    rw [List.append_assoc]
  | case2 =>
    use [], .nil
    rfl

/-! ### Documents -/

/-- A text is a document if there is noise around an element. -/
theorem parse_eq_ok_iff_exists {input : String} {e : Element} :
  parse input = .ok e ↔ ∃ front s back, input.toList = front ++ s ∧ element s = .ok (e, back)
    ∧ IsNoise front ∧ IsNoise back
  := by
  rw [parse_eq_ok_iff]
  constructor
  · intro h
    obtain ⟨_, s, hfront, h⟩ := Reader.bind_eq_ok h
    obtain ⟨root, t, hroot, h⟩ := Reader.bind_eq_ok h
    obtain ⟨_, u, hback, hpure⟩ := Reader.bind_eq_ok h
    obtain ⟨rfl, rfl⟩ := Prod.mk.inj (Except.ok.inj hpure)
    obtain ⟨front, hfront, hinput⟩ := misc_eq_ok hfront
    obtain ⟨back, hback, rfl⟩ := misc_eq_ok hback
    rw [List.append_nil] at hroot
    use front, s, back
  · rintro ⟨front, s, back, hinput, hroot, hfront, hback⟩
    obtain ⟨c, u, rfl, hc⟩ := exists_cons_of_element hroot
    have hmisc : misc (front ++ '<' :: c :: u) = .ok ((), '<' :: c :: u) := by
      rw [misc_append hfront, misc_of_refuses (refuses_dropped hc u)]
    rw [document, hinput, Reader.bind_ok hmisc, Reader.bind_ok hroot,
      Reader.bind_ok (misc_of_isNoise hback)]
    rfl

/-- More noise around a document does not change how it is read. -/
theorem parse_between_noise {before input after : String} {e : Element}
    (hbefore : IsNoise before.toList) (hafter : IsNoise after.toList) (h : parse input = .ok e) :
  parse (before ++ input ++ after) = .ok e
  := by
  obtain ⟨front, s, back, hinput, hroot, hfront, hback⟩ := parse_eq_ok_iff_exists.mp h
  have hs : Continued after.toList s (s ++ after.toList) := ⟨[], nofun, rfl⟩
  obtain ⟨_, hroot', gap, hgap, rfl⟩ := persists_element.exists_ok hroot hs
  apply parse_eq_ok_iff_exists.mpr
  refine ⟨before.toList ++ front, s ++ after.toList, _, ?_, hroot', hbefore.append hfront, ?_⟩
  · rw [String.toList_append, String.toList_append, hinput]
    simp only [List.append_assoc]
  · apply hback.append
    apply (isNoise_of_spaces hgap).append hafter

/-- The document has a comment in it, and the noise is written next to its tags. -/
theorem parse_between_noise_comment :
  let before := "<!-- <p> -- --><!DocType p>\n"
  let input := "<p>a<!---->b</p>"
  let after := " <!doctype-><!---->"
  IsNoise before.toList ∧ IsNoise after.toList
    ∧ parse input = .ok ⟨"p", .empty, [.text "a", .text "b"]⟩
    ∧ parse (before ++ input ++ after) = .ok ⟨"p", .empty, [.text "a", .text "b"]⟩
  := by
  intro before input after
  have hbefore : IsNoise before.toList := by
    have hparts : before.toList = ['<', '!', '-', '-'] ++ (" <p> -- ".toList ++ (['-', '-', '>']
        ++ ("<!DocType".toList ++ (" p".toList ++ '>' :: ['\n'])))) := by
      decide
    rw [hparts]
    apply IsNoise.comment (by decide)
    apply IsNoise.doctype (by decide) (by decide) (by decide)
    apply IsNoise.space (by decide) .nil
  have hafter : IsNoise after.toList := by
    have hparts : after.toList = ' ' :: ("<!doctype".toList ++ ("-".toList ++ '>' ::
        (['<', '!', '-', '-'] ++ ([] ++ (['-', '-', '>'] ++ []))))) := by
      decide
    rw [hparts]
    apply IsNoise.space (by decide)
    apply IsNoise.doctype (by decide) (by decide) (by decide)
    apply IsNoise.comment (by decide) .nil
  exact ⟨hbefore, hafter, parse_comment, parse_between_noise hbefore hafter parse_comment⟩

end

end Hypertext.Html
