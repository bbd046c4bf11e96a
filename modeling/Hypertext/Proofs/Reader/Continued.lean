import Hypertext.Proofs.Reader
import Mathlib.Data.List.Forall2

/-!
# What readers read of a longer text

`Continued rest s s'` says that the text `s'` is `s` with some spaces and then `rest` after it.  How
many spaces there are is left open, because a reader at the end of `s` may take the first of them.

`Persists rest rel ends r` says that what `r` reads of a text it reads of the continued text too,
and that what is left is continued in the same way, provided that what was left has the property
`ends`.  Each way of putting readers together keeps this.  A reader that stopped, as an optional one
does, has to stop on the continued text too, and then it matters what follows.
-/

namespace Hypertext.Reader

variable {α β γ : Type} {rest s s' t t' : List Char}

/-- The second text is the first one with spaces and then `rest` after it. -/
def Continued (rest s s' : List Char) : Prop :=
  ∃ gap, (∀ c ∈ gap, isSpace c = true) ∧ s' = s ++ (gap ++ rest)

/-- The rest alone continues the empty text. -/
theorem continued_self (rest : List Char) :
  Continued rest [] rest
  := ⟨[], nofun, rfl⟩

/-- A text is continued where the same text stands before both. -/
theorem Continued.append (h : Continued rest s s') (u : List Char) :
  Continued rest (u ++ s) (u ++ s')
  := by
  obtain ⟨gap, hgap, rfl⟩ := h
  use gap, hgap
  rw [List.append_assoc]

/-- What stands at the front of a text stands at the front of the continued text. -/
theorem Continued.of_append {u : List Char} (h : Continued rest (u ++ s) s') :
  ∃ t', s' = u ++ t' ∧ Continued rest s t'
  := by
  obtain ⟨gap, hgap, rfl⟩ := h
  use s ++ (gap ++ rest)
  constructor
  · rw [List.append_assoc]
  · use gap, hgap

/-- The first character of a text is the first one of the continued text. -/
theorem Continued.of_cons {c : Char} (h : Continued rest (c :: s) s') :
  ∃ t', s' = c :: t' ∧ Continued rest s t'
  := h.of_append (u := [c])

/-- What is true of the next character of a text is true of the next one of the continued text, if
it is true of spaces and of the next character of the rest. -/
theorem Ahead.continued {p : Char → Prop} (h : Ahead p s) (hrest : Ahead p rest)
    (hspace : ∀ c, isSpace c = true → p c) (hs : Continued rest s s') :
  Ahead p s'
  := by
  cases h with
  | cons hc =>
    obtain ⟨t', rfl, -⟩ := hs.of_cons
    apply Ahead.cons hc
  | nil =>
    obtain ⟨gap, hgap, rfl⟩ := hs
    cases gap with
    | nil => apply hrest
    | cons d gap => apply Ahead.cons (hspace d (hgap d (.head gap)))

/-- Without the spaces at its front a text is continued too, if none stand at the front of the rest.
-/
theorem dropWhile_continued (hrest : Spaceless rest) (hs : Continued rest s s') :
  Continued rest (s.dropWhile isSpace) (s'.dropWhile isSpace)
  := by
  obtain ⟨gap, hgap, rfl⟩ := hs
  rw [List.dropWhile_append]
  split
  · next hempty =>
    rw [List.isEmpty_iff.mp hempty, List.dropWhile_append_of_pos hgap, hrest.dropWhile]
    apply continued_self
  · use gap, hgap

/-! ### Readers -/

variable {rel : α → α → Prop} {ends : List Char → Prop} {r q : Reader α}

/-- What the first reader reads of a text the second one reads of the continued text, up to a
relation, if what the first one leaves has a property. -/
def Follows (rest : List Char) (rel : α → β → Prop) (ends : List Char → Prop) (r : Reader α)
    (q : Reader β) : Prop :=
  ∀ ⦃s s' t : List Char⦄ ⦃a : α⦄, r s = .ok (a, t) → ends t → Continued rest s s' →
    ∃ b t', q s' = .ok (b, t') ∧ rel a b ∧ Continued rest t t'

/-- Related values that are read from nothing follow each other. -/
theorem follows_pure {rel : α → β → Prop} {a : α} {b : β} (h : rel a b) :
  Follows rest rel ends (pure a) (pure b)
  := by
  intro s s' t a' hread _ hs
  obtain ⟨rfl, rfl⟩ := Prod.mk.inj (Except.ok.inj hread)
  use b, s', rfl, h

/-- Two readers one after the other follow two others, if the first of them leaves what it has to
leave for that. -/
theorem Follows.bind {rel' : β → β → Prop} {ends' : List Char → Prop} {f g : α → Reader β}
    (hr : Follows rest rel ends r q) (hf : ∀ a b, rel a b → Follows rest rel' ends' (f a) (g b))
    (hends : ∀ a b t t', f a t = .ok (b, t') → ends' t' → ends t) :
  Follows rest rel' ends' (r >>= f) (q >>= g)
  := by
  intro s s' t b hread hend hs
  obtain ⟨a, u, ha, hb⟩ := bind_eq_ok hread
  obtain ⟨a', u', ha', hrel, hu⟩ := hr ha (hends a b u t hb hend) hs
  rw [bind_ok ha']
  apply hf a a' hrel hb hend hu

/-- What the reader reads of a text it reads of the continued text too, up to a relation, if what it
leaves has a property. -/
abbrev Persists (rest : List Char) (rel : α → α → Prop) (ends : List Char → Prop) (r : Reader α) :
    Prop :=
  Follows rest rel ends r r

/-- A reader that persists whatever it leaves reads the same value of the continued text. -/
theorem Persists.exists_ok {a : α} (hr : Persists rest Eq (fun _ => True) r)
    (hread : r s = .ok (a, t)) (hs : Continued rest s s') :
  ∃ t', r s' = .ok (a, t') ∧ Continued rest t t'
  := by
  obtain ⟨_, t', hread', rfl, ht⟩ := hr hread trivial hs
  use t', hread'

/-- A reader persists where more is known of what it leaves. -/
theorem Persists.mono {ends' : List Char → Prop} (hr : Persists rest rel ends r)
    (h : ∀ t, ends' t → ends t) :
  Persists rest rel ends' r
  := by
  intro s s' t a hread hends hs
  apply hr hread (h t hends) hs

/-- Taking nothing persists. -/
theorem persists_pure {a : α} :
  Persists rest Eq ends (pure a)
  := follows_pure rfl

/-- Readers one after the other persist, if the first of them leaves what it has to leave for that.
-/
theorem Persists.bind {rel' : β → β → Prop} {ends' : List Char → Prop} {f : α → Reader β}
    (hr : Persists rest Eq ends r) (hf : ∀ a, Persists rest rel' ends' (f a))
    (hends : ∀ a b t t', f a t = .ok (b, t') → ends' t' → ends t) :
  Persists rest rel' ends' (r >>= f)
  := by
  apply Follows.bind hr _ hends
  rintro a _ rfl
  apply hf

/-- After a reader that may leave anything there is nothing to check. -/
theorem Persists.seq {rel' : β → β → Prop} {ends' : List Char → Prop} {f : α → Reader β}
    (hr : Persists rest Eq (fun _ => True) r) (hf : ∀ a, Persists rest rel' ends' (f a)) :
  Persists rest rel' ends' (r >>= f)
  := by
  apply hr.bind hf
  intro a b t t' _ _
  trivial

/-- A reader that may leave anything but the empty text can stand before one that takes something.
-/
theorem Persists.before {rel' : β → β → Prop} {ends' : List Char → Prop} {f : α → Reader β}
    [∀ a, Consumes (f a)] (hr : Persists rest Eq (· ≠ []) r)
    (hf : ∀ a, Persists rest rel' ends' (f a)) :
  Persists rest rel' ends' (r >>= f)
  := by
  apply hr.bind hf
  rintro a b _ t' hread - rfl
  cases Consumes.shorter hread

/-- A reader whose value is changed persists as it did. -/
theorem Persists.map {f : α → β} (hr : Persists rest Eq ends r) :
  Persists rest Eq ends (r >>= fun a => pure (f a))
  := by
  apply hr.bind (fun a => persists_pure)
  intro a b t t' hpure hend
  obtain ⟨-, rfl⟩ := Prod.mk.inj (Except.ok.inj hpure)
  apply hend

/-- The second of two readers is used again if the first one stops again where the second one
reads. -/
theorem Persists.or (hr : Persists rest rel ends r) (hq : Persists rest rel ends q)
    (hstop : ∀ s s' t a, Refuses r s → q s = .ok (a, t) → ends t → Continued rest s s' →
      Refuses r s') :
  Persists rest rel ends (r.or q)
  := by
  intro s s' t a hread hend hs
  cases hrs : r s with
  | ok p =>
    rw [or_of_ok hrs] at hread
    obtain ⟨a', t', ha', hrel, ht⟩ := hr (hrs.trans hread) hend hs
    use a', t', or_of_ok ha', hrel
  | error u =>
    rw [or_of_error hrs] at hread
    obtain ⟨a', t', ha', hrel, ht⟩ := hq hread hend hs
    have hrefuses := hstop s s' t a ⟨u, hrs⟩ hread hend hs
    use a', t', (or_of_refuses hrefuses).trans ha', hrel

/-- A reader that need not read anything persists, if where it stops it stops on the continued text
too. -/
theorem Persists.option (hr : Persists rest Eq ends r)
    (hstop : ∀ t t', Refuses r t → ends t → Continued rest t t' → Refuses r t') :
  Persists rest Eq ends r.option
  := by
  intro s s' t o hread hend hs
  cases hrs : r s with
  | ok p =>
    rw [option_of_ok hrs] at hread
    obtain ⟨rfl, rfl⟩ := Prod.mk.inj (Except.ok.inj hread)
    obtain ⟨_, t', ha', rfl, ht⟩ := hr hrs hend hs
    use some p.1, t', option_of_ok ha', rfl
  | error u =>
    rw [option_of_error hrs] at hread
    obtain ⟨rfl, rfl⟩ := Prod.mk.inj (Except.ok.inj hread)
    use none, s', option_of_refuses (hstop s s' ⟨u, hrs⟩ hend hs), rfl

/-- A reader that stops at the start persists as it did. -/
theorem Persists.atomic (hr : Persists rest rel ends r) :
  Persists rest rel ends r.atomic
  := by
  intro s s' t a hread hend hs
  obtain ⟨a', t', ha', hrel, ht⟩ := hr (eq_ok_of_atomic hread) hend hs
  use a', t', atomic_of_ok ha', hrel

/-- A reader that tells the place persists, but for the place. -/
theorem Persists.located (hr : Persists rest Eq ends r) :
  Persists rest (fun p q => p.2 = q.2) ends r.located
  := by
  intro s s' t p hread hend hs
  obtain ⟨-, ha⟩ := eq_of_located hread
  obtain ⟨a', t', ha', hrel, ht⟩ := hr ha hend hs
  use (s', a'), t', located_of_ok ha', hrel

/-! ### Characters -/

/-- A reader of a character persists, whatever it leaves. -/
theorem persists_satisfying (p : Char → Bool) :
  Persists rest Eq ends (satisfying p)
  := by
  intro s s' t c hread _ hs
  obtain ⟨rfl, hc⟩ := satisfying_eq_ok hread
  obtain ⟨t', rfl, ht⟩ := hs.of_cons
  use c, t', satisfying_cons hc, rfl

/-- A reader of a given character persists, whatever it leaves. -/
theorem persists_char (c : Char) :
  Persists rest Eq ends (char c)
  := by
  apply Persists.seq (persists_satisfying _)
  intro d
  apply persists_pure

/-- A run that something follows ends at the same place. -/
theorem persists_run (p : Char → Bool) :
  Persists rest Eq (· ≠ []) (run p)
  := by
  intro s s' t cs hread hne hs
  obtain ⟨rfl, rfl⟩ := Prod.mk.inj (Except.ok.inj hread)
  obtain ⟨t', hs', ht⟩ : ∃ t', s' = s.takeWhile p ++ t' ∧ Continued rest (s.dropWhile p) t' := by
    apply Continued.of_append
    rwa [List.takeWhile_append_dropWhile]
  have hhead : Ahead (p · = false) t' := by
    have hfalse := List.head_dropWhile_not p hne
    obtain ⟨c, u, hcu⟩ := List.exists_cons_of_ne_nil hne
    simp only [hcu, List.head_cons] at hfalse
    rw [hcu] at ht
    obtain ⟨u', rfl, -⟩ := ht.of_cons
    apply Ahead.cons hfalse
  use s.takeWhile p, t'
  constructor
  · rw [hs']
    apply run_append _ hhead
    apply List.all_eq_true.mp List.all_takeWhile
  · exact ⟨rfl, ht⟩

/-- Spaces are read of the continued text too, and with them those before the rest. -/
theorem persists_spaces (hrest : Spaceless rest) :
  Persists rest Eq ends spaces
  := by
  intro s s' t a hread _ hs
  obtain ⟨-, rfl⟩ := Prod.mk.inj (Except.ok.inj hread)
  use (), s'.dropWhile isSpace, spaces_apply s', rfl
  apply dropWhile_continued hrest hs

/-- A run persists if it ends before the end of the text. -/
theorem persists_run1 (p : Char → Bool) :
  Persists rest Eq (· ≠ []) (run1 p)
  := by
  apply Persists.seq (persists_satisfying p)
  intro c
  apply (persists_run p).map

/-- Spaces that something follows end at the same place, also if the rest starts with spaces. -/
theorem persists_spaces_before :
  Persists rest Eq (· ≠ []) spaces
  := (persists_run isSpace).map

/-- Spaces that have to be there persist if they end before the end of the text. -/
theorem persists_spaces1 :
  Persists rest Eq (· ≠ []) spaces1
  := (persists_run1 isSpace).map

/-- A reader of a given text persists, whatever it leaves. -/
theorem persists_exactly (text : List Char) :
  Persists rest Eq ends (exactly text)
  := by
  intro s s' t a hread _ hs
  obtain rfl := exactly_eq_ok hread
  obtain ⟨t', rfl, ht⟩ := hs.of_append
  use (), t', exactly_append text t', rfl

/-! ### Repetition -/

/-- A repetition ends where the reader stops. -/
theorem refuses_of_repetition [Consumes r] {as : List α} (h : repetition r s = (as, t)) :
  Refuses r t
  := by
  fun_induction repetition r s generalizing as with
  | case1 s a u ha _ as₁ v hrep ih =>
    obtain ⟨-, rfl⟩ := Prod.mk.inj h
    apply ih hrep
  | case2 s u hu =>
    obtain ⟨-, rfl⟩ := Prod.mk.inj h
    use u

/-- What holds of what a repetition leaves, and wherever the reader reads, holds where the
repetition starts. -/
theorem ends_of_repetition [Consumes r] (hnext : ∀ t p, r t = .ok p → ends t) {as : List α}
    (hread : repetition r s = (as, t)) (hend : ends t) :
  ends s
  := by
  cases hrs : r s with
  | ok p => apply hnext s p hrs
  | error u =>
    rw [repetition_of_error hrs] at hread
    obtain ⟨-, rfl⟩ := Prod.mk.inj hread
    apply hend

/-- What is read item by item is read again, and after it what follows on the continued text. -/
theorem repetition_continued [Consumes r] (hr : Persists rest rel ends r)
    (hnext : ∀ t p, r t = .ok p → ends t) {as : List α} (hread : repetition r s = (as, t))
    (hend : ends t) (hs : Continued rest s s') :
  ∃ as' t', List.Forall₂ rel as as' ∧ Continued rest t t'
    ∧ repetition r s' = (as' ++ (repetition r t').1, (repetition r t').2)
  := by
  fun_induction repetition r s generalizing as s' with
  | case1 s a u ha _ as₁ v hrep ih =>
    obtain ⟨rfl, rfl⟩ := Prod.mk.inj hread
    have hu := ends_of_repetition hnext hrep hend
    obtain ⟨a', u', ha', hrel, hu'⟩ := hr ha hu hs
    obtain ⟨as', t', hrels, ht, hrep'⟩ := ih hrep hu'
    use a' :: as', t', .cons hrel hrels, ht
    rw [repetition_of_ok ha', hrep']
    rfl
  | case2 s u hu =>
    obtain ⟨rfl, rfl⟩ := Prod.mk.inj hread
    use [], s', .nil, hs
    rfl

section

variable [Consumes r] {ends' : List Char → Prop} (hr : Persists rest rel ends r)
  (hnext : ∀ t p, r t = .ok p → ends t) (hlast : ∀ t, ends' t → ends t)
  (hstop : ∀ t t', Refuses r t → ends' t → Continued rest t t' → Refuses r t')

include hr hnext hlast hstop

/-- A repetition persists value by value. -/
theorem Persists.many :
  Persists rest (List.Forall₂ rel) ends' (many r)
  := by
  intro s s' t as hread hend hs
  have hrep := Except.ok.inj hread
  obtain ⟨as', t', hrels, ht, hrep'⟩ := repetition_continued hr hnext hrep (hlast t hend) hs
  have hrefuses := hstop t t' (refuses_of_repetition hrep) hend ht
  rw [repetition_of_refuses hrefuses, List.append_nil] at hrep'
  use as', t', congrArg Except.ok hrep', hrels

/-- A reader persists before a repetition if it may leave what the repeated one may leave. -/
theorem Persists.bind_many {rel' : β → β → Prop} {rel'' : γ → γ → Prop} {q : Reader β}
    {f : β → List α → γ} (hq : Persists rest rel' ends q)
    (hf : ∀ b b' as as', rel' b b' → List.Forall₂ rel as as' → rel'' (f b as) (f b' as')) :
  Persists rest rel'' ends' (do
    let b ← q
    let as ← Reader.many r
    return f b as)
  := by
  apply Follows.bind hq
  · intro b b' hb
    apply Follows.bind (hr.many hnext hlast hstop)
    · intro as as' has
      apply follows_pure (hf b b' as as' hb has)
    · intro as c t t' hpure hend
      obtain ⟨-, rfl⟩ := Prod.mk.inj (Except.ok.inj hpure)
      apply hend
  · intro b c t t' hread hend
    obtain ⟨as, u, hmany, hpure⟩ := bind_eq_ok hread
    obtain ⟨-, rfl⟩ := Prod.mk.inj (Except.ok.inj hpure)
    apply ends_of_repetition hnext (Except.ok.inj hmany) (hlast _ hend)

end

end Hypertext.Reader
