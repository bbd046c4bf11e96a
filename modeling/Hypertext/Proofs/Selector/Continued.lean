import Hypertext.Proofs.Reader.Continued
import Hypertext.Proofs.Selector.RoundTrip

/-!
# Simple selectors in longer texts

What stands before a comma or the end of the text, among spaces, is closed: the readers of the
grammar read of it what they read when nothing follows.  This is proved up to simple selectors, with
a condition on what a reader leaves where the next character decides how far it reads.

* A name may have to be followed by something other than a single backslash at the end of the text,
  because a backslash and a comma are an escape.
* After the digits of an escape one space belongs to the escape.  So what is left is continued by the
  spaces but for the first, which is why `Continued` leaves open how many there are.
* A bar in front of an equals sign is no scope, and no equals sign is added after a bar.
-/

namespace Hypertext.Selector

open Grammar
open Reader (Ahead Refuses Spaceless Continued Persists)

variable {rest : List Char}

/-- What starts with one sign is refused by a reader that starts with another one. -/
theorem refuses_of_sign {α β : Type} {sign other : Char} {f : Unit → Reader α} {g : Unit → Reader β}
    {s s' : List Char} {p : α × List Char} (hread : (Reader.char sign >>= f) s = .ok p)
    (hs : Continued rest s s') (hne : sign ≠ other) :
  Refuses (Reader.char other >>= g) s'
  := by
  obtain ⟨u, rfl⟩ := Reader.exists_cons_of_char hread
  obtain ⟨u', rfl, -⟩ := hs.of_cons
  apply refuses_sign g (.cons hne)

/-! ### Escapes -/

/-- Where a hexadecimal digit is next a code point is read. -/
theorem codePoint_cons {c : Char} (h : Text.isHexDigit c) (s : List Char) :
  ∃ p, codePoint (c :: s) = .ok p
  := by
  obtain ⟨digits, t, hdigits⟩ : ∃ digits t, hexDigits (c :: s) = .ok (digits, t) := by
    simp [hexDigits, h]
  rw [codePoint, Reader.bind_ok hdigits]
  cases hterminator : Reader.satisfying endsDigits t with
  | ok p => exact ⟨_, Reader.bind_ok (Reader.option_of_ok hterminator)⟩
  | error u => exact ⟨_, Reader.bind_ok (Reader.option_of_error hterminator)⟩

/-- Where no hexadecimal digit is next no code point is read. -/
theorem refuses_codePoint {c : Char} (h : Text.isHexDigit c = false) (s : List Char) :
  Refuses codePoint (c :: s)
  := by
  apply Refuses.bind
  use c :: s
  simp [hexDigits, h]

/-- A backslash and a character after it are always an escape. -/
theorem exists_escape (c : Char) (s : List Char) :
  ∃ p, escape ('\\' :: c :: s) = .ok p
  := by
  by_cases h : Text.isHexDigit c
  · obtain ⟨p, hp⟩ := codePoint_cons h s
    use p
    rw [escape, Reader.bind_ok (Reader.char_cons '\\'), Reader.or_of_ok hp]
  · use (c, s)
    apply escape_cons (Bool.eq_false_iff.mpr h)

/-- Digits end where they ended before, unless another digit follows. -/
theorem hexDigits_append_right {digits s t : List Char} (h : hexDigits s = .ok (digits, t))
    {u : List Char} (hu : Ahead (Text.isHexDigit · = false) u) :
  hexDigits (s ++ u) = .ok (digits, t ++ u)
  := by
  have hstop : (u.take (6 - s.length)).takeWhile Text.isHexDigit = [] := by
    cases hu with
    | nil => simp
    | cons hc => cases 6 - s.length <;> simp [hc]
  have htake : ((s ++ u).take 6).takeWhile Text.isHexDigit = (s.take 6).takeWhile Text.isHexDigit := by
    rw [List.take_append, List.takeWhile_append, hstop]
    split
    · next hall =>
      rw [List.append_nil]
      exact ((List.takeWhile_prefix _).eq_of_length hall).symm
    · rfl
  simp only [hexDigits, htake] at h ⊢
  split at h
  · cases h
  · next hne =>
    obtain ⟨rfl, rfl⟩ := Prod.mk.inj (Except.ok.inj h)
    have hlength := ((List.takeWhile_prefix Text.isHexDigit).trans (List.take_prefix 6 s)).length_le
    rw [if_neg hne, List.drop_append_of_le_length hlength]

section

variable (hrest : Closes rest)

include hrest

/-- What a space and a comma have in common the next character of a closed text has, if it had it
before the text was continued. -/
theorem ahead_continued {p : Char → Prop} [DecidablePred p] {s s' : List Char} (h : Ahead p s)
    (hs : Continued rest s s') (hp : [',', ' ', '\t', '\r', '\n'].all (fun c => decide (p c)) = true) :
  Ahead p s'
  := by
  have hall := Reader.forall_mem_of_all hp
  apply h.continued (hrest.mono _) _ hs
  · rintro c rfl
    apply hall ',' (by decide)
  · intro c hc
    apply hall
    simp only [Reader.isSpace, Bool.or_eq_true, decide_eq_true_eq] at hc
    rcases hc with ((rfl | rfl) | rfl) | rfl <;> decide

theorem persists_hexDigits :
  hexDigits.Persists rest Eq fun _ => True
  := by
  rintro s _ t digits hread _ ⟨gap, hgap, rfl⟩
  have hafter : Ahead (Text.isHexDigit · = false) (gap ++ rest) := by
    apply ahead_continued hrest .nil ⟨gap, hgap, rfl⟩
    decide
  use digits, t ++ (gap ++ rest), hexDigits_append_right hread hafter, rfl, gap

/-- Where the text ended after the digits of an escape, a space after it ends them now. -/
theorem persists_terminator :
  (Reader.satisfying endsDigits).option.Persists rest (fun _ _ => True) fun _ => True
  := by
  intro s s' t terminator hread _ hs
  rcases s with _ | ⟨c, s⟩
  · obtain ⟨-, rfl⟩ := Prod.mk.inj (Except.ok.inj hread)
    obtain ⟨gap, hgap, rfl⟩ := hs
    rcases gap with _ | ⟨d, gap⟩
    · have hnone : Refuses (Reader.satisfying endsDigits) rest := by
        apply Reader.refuses_satisfying
        apply hrest.mono
        rintro c rfl
        decide
      use none, rest, Reader.option_of_refuses hnone, trivial
      apply Reader.continued_self
    · obtain ⟨hd, hgap⟩ := List.forall_mem_cons.mp hgap
      have hends : endsDigits d = true := by
        rw [endsDigits, hd, Bool.true_or]
      use some d, gap ++ rest, Reader.option_of_ok (Reader.satisfying_cons hends), trivial, gap, hgap
      rfl
  · obtain ⟨t', rfl, ht⟩ := hs.of_cons
    by_cases hc : endsDigits c = true
    · rw [Reader.option_of_ok (Reader.satisfying_cons hc)] at hread
      obtain ⟨-, rfl⟩ := Prod.mk.inj (Except.ok.inj hread)
      use some c, t', Reader.option_of_ok (Reader.satisfying_cons hc), trivial
    · have hnone (u : List Char) : Refuses (Reader.satisfying endsDigits) (c :: u) := by
        apply Reader.refuses_satisfying
        apply Ahead.cons (Bool.eq_false_iff.mpr hc)
      rw [Reader.option_of_refuses (hnone s)] at hread
      obtain ⟨-, rfl⟩ := Prod.mk.inj (Except.ok.inj hread)
      use none, c :: t', Reader.option_of_refuses (hnone t'), trivial

/-- A code point is read of the continued text too, with the space after it. -/
theorem persists_codePoint :
  codePoint.Persists rest Eq fun _ => True
  := by
  apply (persists_hexDigits hrest).seq
  intro digits s s' t c hread _ hs
  obtain ⟨terminator, u, hterminator, hpure⟩ := Reader.bind_eq_ok hread
  obtain ⟨rfl, rfl⟩ := Prod.mk.inj (Except.ok.inj hpure)
  obtain ⟨terminator', u', hterminator', -, hu⟩ := persists_terminator hrest hterminator trivial hs
  use charOfNumber (Text.numberOf 16 digits), u', Reader.bind_ok hterminator', rfl

/-- The character after the backslash is there already, so a text that goes on does not make a digit
of it. -/
theorem persists_escape :
  escape.Persists rest Eq fun _ => True
  := by
  apply Persists.seq (Reader.persists_char '\\')
  intro _
  apply (persists_codePoint hrest).or (Reader.persists_satisfying _)
  intro s s' t c hrefuses hread _ hs
  obtain ⟨rfl, -⟩ := Reader.satisfying_eq_ok hread
  obtain ⟨t', rfl, -⟩ := hs.of_cons
  apply refuses_codePoint
  rw [Bool.eq_false_iff]
  intro hhex
  obtain ⟨p, hp⟩ := codePoint_cons hhex t
  apply hrefuses.ne_ok p hp

theorem persists_escapeOr {p : Char → Bool} (hp : p '\\' = false) :
  (escapeOr p).Persists rest Eq fun _ => True
  := by
  apply (persists_escape hrest).or (Reader.persists_satisfying p)
  intro s s' t c _ hread _ hs
  obtain ⟨rfl, hc⟩ := Reader.satisfying_eq_ok hread
  obtain ⟨t', rfl, -⟩ := hs.of_cons
  apply refuses_escape
  apply Ahead.cons
  rintro rfl
  rw [hp] at hc
  cases hc

/-! ### Names and strings -/

omit hrest in
/-- Where no character of a name is read none follows, but for a backslash at the end of the text.
-/
theorem nameless_of_refuses {s : List Char} (h : Refuses nameChar s) (hs : s ≠ ['\\']) :
  Nameless s
  := by
  rcases s with _ | ⟨c, s⟩
  · exact .nil
  · have hbackslash : c ≠ '\\' := by
      rintro rfl
      obtain ⟨d, s, rfl⟩ := List.exists_cons_of_ne_nil (show s ≠ [] from fun hnil => hs (hnil ▸ rfl))
      obtain ⟨p, hp⟩ := exists_escape d s
      apply h.ne_ok p (Reader.or_of_ok hp)
    apply Ahead.cons
    use hbackslash
    rw [Bool.eq_false_iff]
    intro hname
    apply h.ne_ok _ (escapeOr_cons hname hbackslash s)

theorem persists_many_nameChar :
  (Reader.many nameChar).Persists rest Eq (· ≠ ['\\'])
  := by
  have hmany : (Reader.many nameChar).Persists rest (List.Forall₂ Eq) (· ≠ ['\\']) := by
    apply (persists_escapeOr hrest (by decide)).many
    · intro t p _
      trivial
    · intro t _
      trivial
    · intro t t' hrefuses hend ht
      apply refuses_escapeOr
      apply ahead_continued hrest (nameless_of_refuses hrefuses hend) ht
      decide
  rwa [List.forall₂_eq_eq_eq] at hmany

omit hrest in
theorem exists_cons_of_escapeOr {p : Char → Bool} {s : List Char} {a : Char × List Char}
    (h : escapeOr p s = .ok a) :
  ∃ c u, s = c :: u ∧ (c = '\\' ∨ p c = true)
  := by
  cases hescape : escape s with
  | ok b =>
    obtain ⟨u, rfl⟩ := Reader.exists_cons_of_char hescape
    exact ⟨'\\', u, rfl, .inl rfl⟩
  | error t =>
    have hplain := (Reader.or_of_error hescape).symm.trans h
    obtain ⟨rfl, hc⟩ := Reader.satisfying_eq_ok (t := a.2) hplain
    exact ⟨a.1, a.2, rfl, .inr hc⟩

omit hrest in
/-- A name starts with a backslash or with a character of names. -/
theorem exists_cons_of_name {s : List Char} {a : String × List Char} (h : name s = .ok a) :
  ∃ c u, s = c :: u ∧ (c = '\\' ∨ isNameChar c = true)
  := by
  obtain ⟨cs, t, hcs, -⟩ := Reader.bind_eq_ok (t := a.2) h
  obtain ⟨c, u, hc, -⟩ := Reader.bind_eq_ok hcs
  apply exists_cons_of_escapeOr hc

omit hrest in
theorem exists_cons_of_identifier {s : List Char} {a : String × List Char}
    (h : identifier s = .ok a) :
  ∃ c u, s = c :: u ∧ (c = '\\' ∨ isNameChar c = true)
  := by
  rcases s with _ | ⟨c, s⟩
  · cases h
  · use c, s, rfl
    by_contra hnone
    rw [not_or, Bool.not_eq_true] at hnone
    apply (refuses_identifier (.cons hnone)).ne_ok _ h

omit hrest in
theorem ne_of_isNameChar {c d : Char} (hc : c = '\\' ∨ isNameChar c = true)
    (hd : d ≠ '\\' ∧ isNameChar d = false) :
  c ≠ d
  := by
  rintro rfl
  rcases hc with rfl | hc
  · apply hd.1 rfl
  · rw [hd.2] at hc
    cases hc

/-- A name that leaves more than a backslash is read of the continued text too. -/
theorem persists_name :
  name.Persists rest Eq (· ≠ ['\\'])
  := by
  have hmany1 : (Reader.many1 nameChar).Persists rest Eq (· ≠ ['\\']) := by
    apply (persists_escapeOr hrest (by decide)).seq
    intro c
    apply (persists_many_nameChar hrest).map
  apply hmany1.map

theorem persists_option_satisfying {p : Char → Bool} {ends : List Char → Prop}
    (hp : [',', ' ', '\t', '\r', '\n'].all (fun c => decide (p c = false)) = true) :
  (Reader.satisfying p).option.Persists rest Eq ends
  := by
  apply (Reader.persists_satisfying p).option
  intro t t' hrefuses _ ht
  apply Reader.refuses_satisfying
  apply ahead_continued hrest (Reader.ahead_of_refuses_satisfying hrefuses) ht hp

/-- An identifier that leaves more than a backslash is read of the continued text too. -/
theorem persists_identifier :
  identifier.Persists rest Eq (· ≠ ['\\'])
  := by
  apply (persists_option_satisfying hrest (by decide)).seq
  intro hyphen
  apply (persists_escapeOr hrest (by decide)).seq
  intro start
  apply (persists_many_nameChar hrest).map

theorem persists_quoted {quote : Char} (hquote : quote ≠ '\\') :
  (quoted quote).Persists rest Eq fun _ => True
  := by
  have hmany : (Reader.many (stringChar quote)).Persists rest (List.Forall₂ Eq)
      fun t => ∃ u, t = quote :: u := by
    apply (persists_escapeOr hrest (by simp)).many
    · intro t p _
      trivial
    · intro t _
      trivial
    · rintro t t' - ⟨u, rfl⟩ ht
      obtain ⟨u', rfl, -⟩ := ht.of_cons
      apply refuses_escapeOr
      apply Ahead.cons
      simp [hquote]
  rw [List.forall₂_eq_eq_eq] at hmany
  apply (Reader.persists_char quote).seq
  intro _
  apply hmany.bind
  · intro cs
    apply (Reader.persists_char quote).seq
    intro _
    apply Reader.persists_pure
  · intro cs text t t' hread _
    apply Reader.exists_cons_of_char hread

/-- A string is read of the continued text too. -/
theorem persists_string :
  string.Persists rest Eq fun _ => True
  := by
  apply (persists_quoted hrest (by decide)).or (persists_quoted hrest (by decide))
  intro s s' t text _ hread _ hs
  apply refuses_of_sign hread hs (by decide)

/-! ### Tests of attributes -/

theorem persists_scope :
  scope.Persists rest Eq fun _ => True
  := by
  have hstar : (do Reader.char '*'; return "*" : Reader String).Persists rest Eq (· ≠ ['\\']) := by
    apply (Reader.persists_char '*').seq
    intro _
    apply Reader.persists_pure
  have hscope : (identifier.or (do Reader.char '*'; return "*")).Persists rest Eq (· ≠ ['\\']) := by
    apply (persists_identifier hrest).or hstar
    intro s s' t text _ hread _ hs
    obtain ⟨u, rfl⟩ := Reader.exists_cons_of_char hread
    obtain ⟨u', rfl, -⟩ := hs.of_cons
    apply refuses_identifier (.cons (by decide))
  have hbar : (Reader.char '=').notAhead.Persists rest Eq fun _ => True := by
    intro s s' t a hread _ hs
    obtain ⟨hrefuses, rfl⟩ := Reader.notAhead_eq_ok hread
    have hahead : Ahead (· ≠ '=') s' := by
      apply ahead_continued hrest (Reader.ahead_of_refuses_char hrefuses) hs
      decide
    use (), s', Reader.notAhead_of_refuses (Reader.refuses_char hahead), rfl
  apply hscope.bind
  · intro text
    apply (Reader.persists_char '|').seq
    intro _
    apply hbar.seq
    intro _
    apply Reader.persists_pure
  · rintro text text' t t' hread - rfl
    obtain ⟨u, hu⟩ := Reader.exists_cons_of_char hread
    cases hu

theorem persists_operator :
  operator.Persists rest Eq fun _ => True
  := by
  apply (persists_option_satisfying hrest (by decide)).seq
  intro first
  apply (Reader.persists_char '=').map

/-- Spaces are read of the continued text too. -/
theorem persists_spaces {ends : List Char → Prop} :
  Reader.spaces.Persists rest Eq ends
  := by
  apply Reader.persists_spaces
  apply hrest.mono
  rintro c rfl
  decide

/-- The bracket after the test of an attribute is next. -/
def AtBracket (s : List Char) : Prop := ∃ u, s = ']' :: u

theorem persists_flags :
  Grammar.flags.Persists rest Eq AtBracket
  := by
  apply (persists_identifier hrest).bind
  · intro flags
    apply (persists_spaces hrest).map
  · rintro text text' t t' hread ⟨u, rfl⟩ rfl
    cases Except.ok.inj hread

theorem persists_comparison :
  comparison.Persists rest Eq AtBracket
  := by
  apply (persists_operator hrest).seq
  intro operator
  apply (persists_spaces hrest).seq
  intro _
  have hvalue : (string.or name).Persists rest Eq (· ≠ ['\\']) := by
    apply ((persists_string hrest).mono fun _ _ => trivial).or (persists_name hrest)
    intro s s' t text _ hread _ hs
    obtain ⟨c, u, rfl, hc⟩ := exists_cons_of_name hread
    obtain ⟨u', rfl, -⟩ := hs.of_cons
    apply Refuses.or
    · apply refuses_sign _ (.cons (ne_of_isNameChar hc (by decide)))
    · apply refuses_sign _ (.cons (ne_of_isNameChar hc (by decide)))
  have hflags : Grammar.flags.option.Persists rest Eq AtBracket := by
    apply (persists_flags hrest).option
    rintro t t' - ⟨u, rfl⟩ ht
    obtain ⟨u', rfl, -⟩ := ht.of_cons
    apply Refuses.bind
    apply refuses_identifier (.cons (by decide))
  apply hvalue.bind
  · intro value
    apply (persists_spaces hrest).seq
    intro _
    apply hflags.map
  · rintro value c t t' hread ⟨u, rfl⟩ rfl
    cases Except.ok.inj hread

omit hrest in
/-- After an identifier there is no scope if no bar follows, or a bar that is the start of an
operator. -/
theorem refuses_scope_iff {text : String} {s t : List Char} (hread : identifier s = .ok (text, t)) :
  Refuses scope s ↔ Ahead (· ≠ '|') t ∨ ∃ u, t = '|' :: '=' :: u
  := by
  constructor
  · intro hrefuses
    rcases t with _ | ⟨c, t⟩
    · exact .inl .nil
    · by_cases hc : c = '|'
      · subst hc
        right
        cases hequals : Reader.char '=' t with
        | ok p =>
          use p.2
          rw [Reader.char_eq_ok hequals]
        | error v =>
          have hnone := Reader.notAhead_of_refuses ⟨v, hequals⟩
          apply absurd _ (hrefuses.ne_ok (text, t))
          rw [scope, Reader.bind_ok (Reader.or_of_ok hread), Reader.bind_ok (Reader.char_cons '|'),
            Reader.bind_ok hnone]
          rfl
      · exact .inl (.cons hc)
  · rintro (hbar | ⟨u, rfl⟩)
    · apply Reader.refuses_bind_of_ok (Reader.or_of_ok hread)
      apply refuses_sign _ hbar
    · apply Reader.refuses_bind_of_ok (Reader.or_of_ok hread)
      apply Reader.refuses_bind_of_ok (Reader.char_cons '|')
      apply Refuses.bind
      apply Reader.refuses_notAhead (Reader.char_cons '=')

/-- What stands before the name of an attribute is no scope of the longer text either: neither is a
bar added after the identifier nor anything between a bar and an equals sign. -/
theorem persists_option_scope :
  scope.option.Persists rest Eq fun s => ∃ a, identifier s = .ok a ∧ a.2 ≠ ['\\']
  := by
  apply ((persists_scope hrest).mono fun _ _ => trivial).option
  rintro s s' hrefuses ⟨⟨text, t⟩, hread, hend⟩ hs
  obtain ⟨_, t', hread', rfl, ht⟩ := persists_identifier hrest hread hend hs
  rw [refuses_scope_iff hread] at hrefuses
  rw [refuses_scope_iff hread']
  rcases hrefuses with hbar | ⟨u, rfl⟩
  · left
    apply ahead_continued hrest hbar ht
    decide
  · right
    obtain ⟨u', rfl, -⟩ := ht.of_append (u := ['|', '='])
    use u'
    rfl

/-- A test before its bracket is read of the continued text too. -/
theorem persists_attributeTest :
  attributeTest.Persists rest Eq AtBracket
  := by
  have hcomparison : comparison.option.Persists rest Eq AtBracket := by
    apply (persists_comparison hrest).option
    rintro t t' - ⟨u, rfl⟩ ht
    obtain ⟨u', rfl, -⟩ := ht.of_cons
    apply Refuses.bind
    exact ⟨_, rfl⟩
  have hname (scope : Option String) (name : String) (w : WrittenSimple) (t t' : List Char)
      (hread : (do
        Reader.spaces
        let comparison ← comparison.option
        return WrittenSimple.attribute scope name comparison : Reader WrittenSimple) t = .ok (w, t'))
      (hend : AtBracket t') : t ≠ ['\\'] := by
    rintro rfl
    obtain ⟨u, rfl⟩ := hend
    cases Except.ok.inj hread
  apply (persists_spaces hrest).seq
  intro _
  apply (persists_option_scope hrest).bind
  · intro scope
    apply (persists_identifier hrest).bind
    · intro name
      apply (persists_spaces hrest).seq
      intro _
      apply hcomparison.map
    · apply hname scope
  · intro scope w t t' hread hend
    obtain ⟨name, u, hu, hread⟩ := Reader.bind_eq_ok hread
    use (name, u), hu
    apply hname scope name w u t' hread hend

theorem persists_attributeSelector :
  attributeSelector.Persists rest Eq fun _ => True
  := by
  apply (Reader.persists_char '[').seq
  intro _
  apply (persists_attributeTest hrest).bind
  · intro test
    apply (Reader.persists_char ']').map
  · intro test w t t' hread _
    apply Reader.exists_cons_of_char hread

/-! ### Simple selectors -/

omit hrest in
theorem persists_argument :
  argument.Persists rest Eq fun _ => True
  := by
  apply (Reader.persists_char '(').seq
  intro _
  apply (Reader.persists_run _).bind
  · intro cs
    apply (Reader.persists_char ')').map
  · rintro cs text t t' hread - rfl
    cases hread

/-- What is left after a simple selector does not make it longer. -/
structure AfterSimple (s : List Char) : Prop where
  unescaped : s ≠ ['\\']
  noArgument : Ahead (· ≠ '(') s

theorem persists_pseudoSelector :
  pseudoSelector.Persists rest Eq AfterSimple
  := by
  have hsecond : (Reader.char ':').option.Persists rest Eq fun _ => True := by
    apply (Reader.persists_char ':').option
    intro t t' hrefuses _ ht
    apply Reader.refuses_char
    apply ahead_continued hrest (Reader.ahead_of_refuses_char hrefuses) ht
    decide
  have hargument : argument.option.Persists rest Eq AfterSimple := by
    apply (persists_argument.mono fun _ _ => trivial).option
    intro t t' _ hend ht
    apply refuses_sign
    apply ahead_continued hrest hend.noArgument ht
    decide
  apply (Reader.persists_char ':').seq
  intro _
  apply hsecond.seq
  intro second
  apply (persists_identifier hrest).bind
  · intro name
    apply hargument.map
  · rintro name w t t' hread hend rfl
    obtain ⟨-, rfl⟩ := Prod.mk.inj (Except.ok.inj hread)
    apply hend.unescaped rfl

/-- A simple selector is read of the continued text too, up to where one may end. -/
theorem persists_subclassSelector :
  subclassSelector.Persists rest Eq AfterSimple
  := by
  have hid : idSelector.Persists rest Eq AfterSimple := by
    apply (Reader.persists_char '#').seq
    intro _
    apply ((persists_name hrest).mono fun _ h => h.unescaped).map
  have hclass : classSelector.Persists rest Eq AfterSimple := by
    apply (Reader.persists_char '.').seq
    intro _
    apply ((persists_identifier hrest).mono fun _ h => h.unescaped).map
  have hattribute : attributeSelector.Persists rest Eq AfterSimple :=
    (persists_attributeSelector hrest).mono fun _ _ => trivial
  apply Persists.or _ (persists_pseudoSelector hrest)
  · intro s s' t w _ hread _ hs
    apply Refuses.or (Refuses.or _ _) _
    · apply refuses_of_sign hread hs (by decide)
    · apply refuses_of_sign hread hs (by decide)
    · apply refuses_of_sign hread hs (by decide)
  · apply Persists.or _ hattribute
    · intro s s' t w _ hread _ hs
      apply Refuses.or
      · apply refuses_of_sign hread hs (by decide)
      · apply refuses_of_sign hread hs (by decide)
    · apply hid.or hclass
      intro s s' t w _ hread _ hs
      apply refuses_of_sign hread hs (by decide)

/-- A type that leaves more than a backslash is read of the continued text too. -/
theorem persists_typeSelector :
  typeSelector.Persists rest Eq (· ≠ ['\\'])
  := by
  have hstar : (do Reader.char '*'; return WrittenSimple.universal).Persists rest Eq
      (· ≠ ['\\']) := by
    apply (Reader.persists_char '*').seq
    intro _
    apply Reader.persists_pure
  have helement : (do return WrittenSimple.element (← identifier)).Persists rest Eq
      (· ≠ ['\\']) := (persists_identifier hrest).map
  apply hstar.or helement
  intro s s' t w _ hread _ hs
  obtain ⟨text, u, hread, -⟩ := Reader.bind_eq_ok hread
  obtain ⟨c, v, rfl, hc⟩ := exists_cons_of_identifier hread
  obtain ⟨v', rfl, -⟩ := hs.of_cons
  apply refuses_sign _ (.cons (ne_of_isNameChar hc (by decide)))

end

end Hypertext.Selector
