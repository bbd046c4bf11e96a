import Hypertext.Proofs.Selector.Continued
import Hypertext.Proofs.Selector.RoundTrip
import Mathlib.Data.List.TakeWhile

/-!
# Groups of selectors

Two selectors with a comma between them are read as the alternatives of the one and then those of
the other, and spaces around a selector do not matter.  What is read of the longer text is `Alike`:
the same parts, with other remains of the text before them.  `group_continued` says this of
everything in front of the comma, and `check` gives the same for what is alike.
-/

namespace Hypertext.Selector

open Grammar
open Reader (Ahead Refuses Spaceless Continued Persists Follows)

variable {rest : List Char}

/-! ### Written alike -/

/-- The two compound selectors have the same parts, wherever these stand. -/
abbrev WrittenCompound.Alike (w w' : WrittenCompound) : Prop :=
  List.Forall₂ (fun p q => p.2 = q.2) w w'

/-- The two links have the same combinator and the same parts. -/
structure AlikeLinks (l l' : (List Char × Char) × WrittenCompound) : Prop where
  combinator : l.1.2 = l'.1.2
  compound : WrittenCompound.Alike l.2 l'.2

/-- The two complex selectors have the same combinators and the same parts. -/
structure WrittenComplex.Alike (w w' : WrittenComplex) : Prop where
  head : WrittenCompound.Alike w.head w'.head
  tail : List.Forall₂ AlikeLinks w.tail w'.tail

theorem mapM_eq_ok_of_forall₂ {α β γ ε : Type} {rel : α → β → Prop} {f : α → Except ε γ}
    {g : β → Except ε γ} (hf : ∀ a b c, rel a b → f a = .ok c → g b = .ok c) {as : List α}
    {bs : List β} (h : List.Forall₂ rel as bs) {cs : List γ} (has : as.mapM f = .ok cs) :
  bs.mapM g = .ok cs
  := by
  apply mapM_eq_ok
  have hmap := map_eq_of_mapM has
  clear has
  induction h generalizing cs with
  | nil => apply hmap
  | cons hab _ ih =>
    rcases cs with _ | ⟨c, cs⟩
    · cases hmap
    · obtain ⟨hc, hcs⟩ := List.cons.inj hmap
      rw [List.map_cons, List.map_cons, hf _ _ c hab hc, ih hcs]

/-- Compound selectors that are alike pass the checks alike. -/
theorem WrittenCompound.Alike.check {w w' : WrittenCompound} (h : WrittenCompound.Alike w w')
    {c : Compound} (hw : WrittenCompound.check w = .ok c) :
  WrittenCompound.check w' = .ok c
  := by
  obtain ⟨simples, hsimples, hpure⟩ := eq_ok_of_bind hw
  have hsimples' : w'.mapM (fun p => p.2.check.mapError (p.1, ·)) = .ok simples := by
    apply mapM_eq_ok_of_forall₂ _ h hsimples
    intro p q s hpq hp
    rw [← hpq, eq_ok_of_mapError hp]
    rfl
  rw [WrittenCompound.check, hsimples']
  apply hpure

/-- Links that are alike pass the checks alike. -/
theorem AlikeLinks.check {l l' : (List Char × Char) × WrittenCompound} (h : AlikeLinks l l')
    {c : Compound} (hl : checkLink l = .ok c) :
  checkLink l' = .ok c
  := by
  rw [checkLink] at hl
  split at hl
  · next hspace =>
    rw [checkLink, if_pos (h.combinator.symm.trans hspace)]
    apply h.compound.check hl
  · cases hl

/-- Complex selectors that are alike pass the checks alike. -/
theorem WrittenComplex.Alike.check {w w' : WrittenComplex} (h : w.Alike w') {c : Complex}
    (hw : w.check = .ok c) :
  w'.check = .ok c
  := by
  obtain ⟨head, hhead, hw⟩ := eq_ok_of_bind hw
  obtain ⟨tail, htail, hpure⟩ := eq_ok_of_bind hw
  have htail' := mapM_eq_ok_of_forall₂ (fun _ _ _ hl => hl.check) h.tail htail
  rw [WrittenComplex.check, h.head.check hhead, htail']
  apply hpure

/-! ### Compound selectors -/

/-- No compound selector goes on. -/
abbrev Paused (s : List Char) : Prop := Ahead (· ∈ ',' :: linkSigns) s

theorem Paused.afterSimple {s : List Char} (h : Paused s) :
  AfterSimple s
  where
  unescaped := by
    rintro rfl
    rcases h with _ | h
    revert h
    decide
  noArgument := by
    apply h.of_all
    decide

theorem Signed.afterSimple {s : List Char} (h : Signed s) :
  AfterSimple s
  where
  unescaped := by
    rintro rfl
    obtain ⟨c, u, hs, hc⟩ := h
    obtain ⟨rfl, -⟩ := List.cons.inj hs
    revert hc
    decide
  noArgument := by
    apply h.ahead.of_all
    decide

section

variable (hrest : Closes rest)

include hrest

omit hrest in
theorem afterSimple_of_subclassSelector (s : List Char) (p : (List Char × WrittenSimple) × List Char)
    (h : subclassSelector.located s = .ok p) :
  AfterSimple s
  := by
  apply Signed.afterSimple
  apply signed_of_subclassSelector (Reader.eq_of_located (t := p.2) h).2

theorem refuses_subclassSelector_continued (s s' : List Char)
    (_ : Refuses subclassSelector.located s) (h : Paused s) (hs : Continued rest s s') :
  Refuses subclassSelector.located s'
  := by
  apply Refuses.located
  apply refuses_subclassSelector
  apply ahead_continued hrest (h.of_all _) hs
  · decide
  · decide

/-- A compound selector that leaves a pause is read of the continued text too, but for the places.
-/
theorem persists_compound :
  compound.Persists rest WrittenCompound.Alike Paused
  := by
  have htype : typeSelector.located.Persists rest (fun p q => p.2 = q.2) AfterSimple :=
    ((persists_typeSelector hrest).mono fun _ h => h.unescaped).located
  have hsubclass := (persists_subclassSelector hrest).located
  apply Persists.atomic
  apply Persists.or
  · apply hsubclass.bind_many afterSimple_of_subclassSelector (fun _ h => h.afterSimple)
      (refuses_subclassSelector_continued hrest) htype
    intro p q ps qs hpq hpqs
    exact .cons hpq hpqs
  · apply hsubclass.bind_many afterSimple_of_subclassSelector (fun _ h => h.afterSimple)
      (refuses_subclassSelector_continued hrest) hsubclass
    intro p q ps qs hpq hpqs
    exact .cons hpq hpqs
  · intro s s' t w _ hread _ hs
    obtain ⟨p, u, hp, -⟩ := Reader.bind_eq_ok hread
    obtain ⟨c, v, rfl, hc⟩ := signed_of_subclassSelector (Reader.eq_of_located hp).2
    obtain ⟨v', rfl, -⟩ := hs.of_cons
    apply Refuses.bind
    apply Refuses.located
    apply refuses_typeSelector (.cons hc)

/-! ### Complex selectors -/

omit hrest in
/-- No sign of a combinator is read after spaces if and only if none is there. -/
theorem refuses_sign_after_spaces_iff {s : List Char} :
  Refuses (do Reader.spaces; combinatorSign.located) s
    ↔ Ahead (fun c => ['>', '+', '~'].contains c = false) (s.dropWhile Reader.isSpace)
  := by
  constructor
  · intro hrefuses
    apply Reader.ahead_of_refuses_satisfying
    cases hsign : Reader.satisfying (fun c => ['>', '+', '~'].contains c)
        (s.dropWhile Reader.isSpace) with
    | error u => use u
    | ok p =>
      have hread : combinatorSign (s.dropWhile Reader.isSpace)
          = .ok (p.1, p.2.dropWhile Reader.isSpace) := by
        rw [combinatorSign, Reader.bind_ok hsign, Reader.bind_ok (Reader.spaces_apply p.2)]
        rfl
      have hlocated := Reader.bind_ok (f := fun _ => combinatorSign.located) (Reader.spaces_apply s)
      rw [Reader.located_of_ok hread] at hlocated
      apply absurd hlocated (hrefuses.ne_ok _)
  · intro hahead
    apply Reader.refuses_bind_of_ok (Reader.spaces_apply s)
    apply Refuses.located
    apply Refuses.bind
    apply Reader.refuses_satisfying hahead

/-- Spaces are a combinator before the same compound selectors, since no sign is added after them.
-/
theorem persists_combinator :
  combinator.Persists rest (fun p q => p.2 = q.2) (· ≠ [])
  := by
  have hsign : combinatorSign.Persists rest Eq (· ≠ []) := by
    apply (Reader.persists_satisfying _).seq
    intro sign
    apply (persists_spaces hrest).map
  have hspaces : (do Reader.spaces1; return ' ' : Reader Char).Persists rest Eq (· ≠ []) :=
    Reader.persists_spaces1.map
  apply Persists.or
  · apply (persists_spaces hrest).seq
    intro _
    apply hsign.located
  · apply hspaces.located
  · intro s s' t p hrefuses hread hne hs
    rw [refuses_sign_after_spaces_iff] at hrefuses ⊢
    apply ahead_continued hrest hrefuses _ (by decide)
    apply Reader.dropWhile_continued _ hs
    apply hrest.unlinked.spaceless

/-- A link that leaves a pause is read of the continued text too, but for the places. -/
theorem persists_link :
  link.Persists rest AlikeLinks Paused
  := by
  apply Follows.bind (persists_combinator hrest)
  · intro p q hpq
    apply Follows.bind (persists_compound hrest)
    · intro w w' hw
      exact Reader.follows_pure ⟨hpq, hw⟩
    · intro w l t t' hpure hend
      obtain ⟨-, rfl⟩ := Prod.mk.inj (Except.ok.inj hpure)
      apply hend
  · rintro p l t t' hread - rfl
    cases hread

/-- The alternative is at its end, but for spaces. -/
def Finished (s : List Char) : Prop := Closes (s.dropWhile Reader.isSpace)

omit hrest in
theorem Finished.paused {s : List Char} (h : Finished s) :
  Paused s
  := by
  rcases s with _ | ⟨c, s⟩
  · exact .nil
  · apply Ahead.cons
    by_cases hc : Reader.isSpace c = true
    · simp only [Reader.isSpace, Bool.or_eq_true, decide_eq_true_eq] at hc
      rcases hc with ((rfl | rfl) | rfl) | rfl <;> decide
    · rw [Finished, List.dropWhile_cons_of_neg hc] at h
      obtain _ | rfl := h
      apply List.mem_cons_self

/-- Where a complex selector may end it may end in the continued text. -/
theorem Finished.continued {s s' : List Char} (h : Finished s) (hs : Continued rest s s') :
  Finished s'
  := by
  obtain ⟨gap, hgap, rfl⟩ := hs
  rw [Finished, List.dropWhile_append]
  split
  · rw [List.dropWhile_append_of_pos hgap, hrest.unlinked.spaceless.dropWhile]
    apply hrest
  · next hne =>
    rw [Finished] at h
    cases hleft : s.dropWhile Reader.isSpace with
    | nil =>
      rw [hleft] at hne
      apply absurd rfl hne
    | cons c u =>
      rw [hleft] at h
      obtain _ | hc := h
      exact .cons hc

omit hrest in
/-- No compound selector is read where an alternative ends. -/
theorem Closes.refuses_compound {s : List Char} (h : Closes s) :
  Refuses compound s
  := by
  apply Selector.refuses_compound
  · apply Refuses.or
    · apply refuses_sign
      apply h.mono
      rintro c rfl
      decide
    · apply Refuses.bind
      apply refuses_identifier
      apply h.mono
      rintro c rfl
      decide
  · apply h.ends.refuses

omit hrest in
/-- Spaces at the end are a combinator, but no compound selector is after them. -/
theorem Finished.refuses_link {s : List Char} (h : Finished s) :
  Refuses link s
  := by
  cases hcombinator : combinator s with
  | error u => exact Refuses.bind ⟨u, hcombinator⟩
  | ok p =>
    apply Reader.refuses_bind_of_ok hcombinator
    apply Refuses.bind
    apply Closes.refuses_compound
    obtain ⟨c, u, -, hleft, ⟨rfl, hc, -⟩ | ⟨hs, -, hc⟩⟩ := combinator_eq_ok hcombinator
    · rw [hleft]
      rwa [Finished, List.dropWhile_cons_of_pos hc] at h
    · rw [Finished, hs] at h
      obtain _ | rfl := h
      cases List.contains_iff_mem.mpr hc

omit hrest in
theorem paused_of_link (s : List Char) (p : ((List Char × Char) × WrittenCompound) × List Char)
    (h : link s = .ok p) :
  Paused s
  := by
  rcases s with _ | ⟨c, s⟩
  · exact .nil
  · apply Ahead.cons
    by_contra hc
    have hlink : c ∉ linkSigns := fun hmem => hc (.tail _ hmem)
    apply (Selector.refuses_link (.cons hlink)).ne_ok p h

/-- A complex selector that is finished is read of the continued text too, but for the places. -/
theorem persists_complex :
  complex.Persists rest WrittenComplex.Alike Finished
  := by
  apply (persists_link hrest).bind_many paused_of_link (fun _ h => h.paused)
      (fun _ _ _ h hs => (h.continued hrest hs).refuses_link) (persists_compound hrest)
  intro head head' tail tail' hhead htail
  exact ⟨hhead, htail⟩

/-! ### Groups -/

/-- An alternative that is finished is read of the continued text too, but for the places. -/
theorem persists_alternative :
  alternative.Persists rest WrittenComplex.Alike Finished
  := by
  apply (persists_spaces hrest).seq
  intro _
  apply (Reader.persists_char ',').seq
  intro _
  apply (persists_spaces hrest).seq
  intro _
  apply persists_complex hrest

end

/-- After a comma an alternative is a complex selector, after the spaces. -/
theorem alternative_cons (s : List Char) :
  alternative (',' :: s) = complex (s.dropWhile Reader.isSpace)
  := by
  have hspaces : Reader.spaces (',' :: s) = .ok ((), ',' :: s) :=
    Reader.spaces_of_spaceless (.cons (by decide))
  rw [alternative, Reader.bind_ok hspaces, Reader.bind_ok (Reader.char_cons ','),
    Reader.bind_ok (Reader.spaces_apply s)]

/-- A group is one alternative after the other, as if a comma were in front of the first one too. -/
theorem group_eq_ok_iff {s : List Char} {ws : List WrittenComplex} :
  group s = .ok (ws, [])
    ↔ ws ≠ [] ∧ ∃ t, Reader.repetition alternative (',' :: s) = (ws, t)
      ∧ ∀ c ∈ t, Reader.isSpace c = true
  := by
  constructor
  · intro h
    rw [group, Reader.bind_ok (Reader.spaces_apply s)] at h
    obtain ⟨first, u, hfirst, h⟩ := Reader.bind_eq_ok h
    obtain ⟨more, t, hmore, h⟩ := Reader.bind_eq_ok h
    rw [Reader.bind_ok (Reader.spaces_apply t)] at h
    obtain ⟨rfl, ht⟩ := Prod.mk.inj (Except.ok.inj h)
    constructor
    · apply List.cons_ne_nil
    · use t
      rw [Reader.repetition_of_ok ((alternative_cons s).trans hfirst), Except.ok.inj hmore]
      exact ⟨rfl, List.dropWhile_eq_nil_iff.mp ht⟩
  · rintro ⟨hne, t, hrep, ht⟩
    cases hfirst : alternative (',' :: s) with
    | error u =>
      rw [Reader.repetition_of_error hfirst] at hrep
      apply absurd (congrArg Prod.fst hrep).symm hne
    | ok p =>
      rw [Reader.repetition_of_ok hfirst] at hrep
      obtain ⟨rfl, rfl⟩ := Prod.mk.inj hrep
      rw [alternative_cons] at hfirst
      rw [group, Reader.bind_ok (Reader.spaces_apply s), Reader.bind_ok hfirst,
        Reader.bind_ok (r := Reader.many alternative) rfl, Reader.bind_ok (Reader.spaces_apply _),
        List.dropWhile_eq_nil_iff.mpr ht]
      rfl

/-- Spaces in front of a group do not matter. -/
theorem group_spaces_append {gap : List Char} (hgap : ∀ c ∈ gap, Reader.isSpace c = true)
    (s : List Char) :
  group (gap ++ s) = group s
  := by
  have hspaces : Reader.spaces (gap ++ s) = .ok ((), s.dropWhile Reader.isSpace) := by
    rw [Reader.spaces_apply, List.dropWhile_append_of_pos hgap]
  rw [group, Reader.bind_ok hspaces, Reader.bind_ok (Reader.spaces_apply s)]

/-- Spaces in front of an alternative do not matter. -/
theorem alternative_spaces_append {gap : List Char} (hgap : ∀ c ∈ gap, Reader.isSpace c = true)
    (s : List Char) :
  alternative (gap ++ s) = alternative s
  := by
  have hspaces : Reader.spaces (gap ++ s) = .ok ((), s.dropWhile Reader.isSpace) := by
    rw [Reader.spaces_apply, List.dropWhile_append_of_pos hgap]
  rw [alternative, Reader.bind_ok hspaces, Reader.bind_ok (Reader.spaces_apply s)]

/-- What is read of a group is read of the continued text, and then what goes on after the gap.
Every alternative leaves spaces or a comma after spaces, and the last one leaves spaces. -/
theorem group_continued (hrest : Closes rest) {s s' : List Char} {ws : List WrittenComplex}
    (h : group s = .ok (ws, [])) (hs : Continued rest s s') :
  ∃ ws' gap, List.Forall₂ WrittenComplex.Alike ws ws' ∧ (∀ c ∈ gap, Reader.isSpace c = true)
    ∧ Reader.repetition alternative (',' :: s')
      = (ws' ++ (Reader.repetition alternative (gap ++ rest)).1,
        (Reader.repetition alternative (gap ++ rest)).2)
  := by
  obtain ⟨-, t, hrep, ht⟩ := group_eq_ok_iff.mp h
  have hfinished : Finished t := by
    rw [Finished, List.dropWhile_eq_nil_iff.mpr ht]
    exact .nil
  have hnext (u : List Char) (p : WrittenComplex × List Char) (hp : alternative u = .ok p) :
      Finished u := by
    rw [alternative, Reader.bind_ok (Reader.spaces_apply u)] at hp
    obtain ⟨v, hv⟩ := Reader.exists_cons_of_char hp
    rw [Finished, hv]
    exact .cons rfl
  obtain ⟨ws', t', halike, ⟨gap, hgap, rfl⟩, hrep'⟩ := Reader.repetition_continued
    (persists_alternative hrest) hnext hrep hfinished (hs.append [','])
  use ws', t ++ gap, halike
  rw [List.append_assoc]
  constructor
  · intro c hc
    rcases List.mem_append.mp hc with hc | hc
    · apply ht c hc
    · apply hgap c hc
  · apply hrep'

/-- Spaces after a group do not matter. -/
theorem group_append_spaces {s gap : List Char} {ws : List WrittenComplex}
    (h : group s = .ok (ws, [])) (hgap : ∀ c ∈ gap, Reader.isSpace c = true) :
  ∃ ws', List.Forall₂ WrittenComplex.Alike ws ws' ∧ group (s ++ gap) = .ok (ws', [])
  := by
  have hs : Continued [] s (s ++ gap) := ⟨gap, hgap, by rw [List.append_nil]⟩
  obtain ⟨ws', gap', halike, hgap', hrep⟩ := group_continued .nil h hs
  have hstop : Refuses alternative gap' := by
    apply refuses_alternative
    rw [List.dropWhile_eq_nil_iff.mpr hgap']
    exact .nil
  rw [List.append_nil, Reader.repetition_of_refuses hstop, List.append_nil] at hrep
  use ws', halike
  rw [group_eq_ok_iff]
  constructor
  · rintro rfl
    cases halike
    apply (group_eq_ok_iff.mp h).1 rfl
  · use gap'

theorem repetition_alternative_spaces_append {gap s : List Char}
    (hgap : ∀ c ∈ gap, Reader.isSpace c = true)
    (hne : (Reader.repetition alternative s).1 ≠ []) :
  Reader.repetition alternative (gap ++ s) = Reader.repetition alternative s
  := by
  cases hfirst : alternative s with
  | error u =>
    rw [Reader.repetition_of_error hfirst] at hne
    apply absurd rfl hne
  | ok p =>
    rw [Reader.repetition_of_ok hfirst,
      Reader.repetition_of_ok ((alternative_spaces_append hgap s).trans hfirst)]

/-- A comma among spaces joins two groups. -/
theorem group_comma {s₁ s₂ gap : List Char} {ws₁ ws₂ : List WrittenComplex}
    (h₁ : group s₁ = .ok (ws₁, [])) (h₂ : group s₂ = .ok (ws₂, []))
    (hgap : ∀ c ∈ gap, Reader.isSpace c = true) :
  ∃ ws', List.Forall₂ WrittenComplex.Alike ws₁ ws'
    ∧ group (s₁ ++ (gap ++ ',' :: s₂)) = .ok (ws' ++ ws₂, [])
  := by
  obtain ⟨ws', gap', halike, hgap', hrep⟩ := group_continued (.cons rfl) h₁ ⟨gap, hgap, rfl⟩
  obtain ⟨hne, t, hrep₂, ht⟩ := group_eq_ok_iff.mp h₂
  have hmore : Reader.repetition alternative (gap' ++ ',' :: s₂) = (ws₂, t) := by
    rw [repetition_alternative_spaces_append hgap', hrep₂]
    rw [hrep₂]
    apply hne
  rw [hmore] at hrep
  use ws', halike
  rw [group_eq_ok_iff]
  constructor
  · apply List.append_ne_nil_of_right_ne_nil ws' hne
  · use t

/-! ### Selectors -/

theorem mapM_check_of_alike {ws ws' : List WrittenComplex}
    (h : List.Forall₂ WrittenComplex.Alike ws ws') {a : Selector}
    (hws : ws.mapM WrittenComplex.check = .ok a) :
  ws'.mapM WrittenComplex.check = .ok a
  := mapM_eq_ok_of_forall₂ (fun _ _ _ hw => hw.check) h hws

/-- Two selectors are read with a comma between them, and each with spaces around it. -/
theorem parse_join {s₁ s₂ w₁ w₂ w₃ w₄ : String} {a₁ a₂ : Selector} (h₁ : parse s₁ = .ok a₁)
    (h₂ : parse s₂ = .ok a₂)
    (hw : ∀ w ∈ [w₁, w₂, w₃, w₄], ∀ c ∈ w.toList, Reader.isSpace c = true) :
  parse (w₁ ++ s₁ ++ w₂ ++ "," ++ w₃ ++ s₂ ++ w₄) = .ok (a₁ ++ a₂)
    ∧ parse (w₁ ++ s₁ ++ w₂) = .ok a₁
  := by
  simp only [List.forall_mem_cons] at hw
  obtain ⟨hw₁, hw₂, hw₃, hw₄, -⟩ := hw
  obtain ⟨ws₁, hgroup₁, hcheck₁⟩ := group_of_parse h₁
  obtain ⟨ws₂, hgroup₂, hcheck₂⟩ := group_of_parse h₂
  constructor
  · obtain ⟨ws₂', halike₂, hgroup₂'⟩ := group_append_spaces hgroup₂ hw₄
    rw [← group_spaces_append hw₃] at hgroup₂'
    obtain ⟨ws₁', halike₁, hgroup⟩ := group_comma hgroup₁ hgroup₂' hw₂
    rw [← group_spaces_append hw₁] at hgroup
    have hcheck : (ws₁' ++ ws₂').mapM WrittenComplex.check = .ok (a₁ ++ a₂) := by
      rw [List.mapM_append, mapM_check_of_alike halike₁ hcheck₁, mapM_check_of_alike halike₂ hcheck₂]
      rfl
    apply parse_of_group _ hcheck
    rw [← hgroup]
    simp
  · obtain ⟨ws₁', halike₁, hgroup⟩ := group_append_spaces hgroup₁ hw₂
    rw [← group_spaces_append hw₁] at hgroup
    apply parse_of_group _ (mapM_check_of_alike halike₁ hcheck₁)
    rw [← hgroup]
    simp

theorem parse_eq_ok_of_toOption {input : String} {a : Selector}
    (h : (parse input).toOption = some a) :
  parse input = .ok a
  := by
  cases hread : parse input with
  | error e =>
    rw [hread] at h
    cases h
  | ok b =>
    rw [hread] at h
    rw [Option.some.inj h]

/-- An escape takes one of the spaces before the comma, and a comma in a string is none. -/
theorem parse_join_escape :
  let a : Selector := [[[.element "a1"]]]
  let b : Selector :=
    [[[.universal, .attribute ⟨"x", none, .dash, "1,2", some "i"⟩, .pseudo [.empty]]], [[.universal]]]
  parse "a\\31" = .ok a
    ∧ parse "[x|=\"1,2\" i]:empty,*" = .ok b
    ∧ parse "\ta\\31 \n,[x|=\"1,2\" i]:empty,*\r" = .ok (a ++ b)
    ∧ parse "\ta\\31 \n" = .ok a
  := by
  intro a b
  have ha : parse "a\\31" = .ok a := parse_eq_ok_of_toOption (by decide +kernel)
  have hb : parse "[x|=\"1,2\" i]:empty,*" = .ok b := parse_eq_ok_of_toOption (by decide +kernel)
  have hw : ∀ w ∈ ["\t", " \n", "", "\r"], ∀ c ∈ w.toList, Reader.isSpace c = true := by
    simp [Reader.isSpace]
  exact ⟨ha, hb, parse_join ha hb hw⟩

end Hypertext.Selector
