import Hypertext.Reader
import Mathlib.Data.List.Forall2
import Mathlib.Tactic.Use

/-!
# What readers read

`Refuses r s` says that a reader stops on a text, and `Gives r p` that every value which it reads
has a property.  Both are found from the way a reader is put together.  A text that is written
item by item is read back item by item, as `repetition_flatMap` says, and `repetition_jams` tells
where the reading ends if one of the items cannot be read.
-/

namespace Hypertext

/-! ### Checks -/

section

variable {ε ε' α β : Type}

/-- Checks one after the other succeed only if each of them does. -/
theorem eq_ok_of_bind {x : Except ε α} {f : α → Except ε β} {b : β} (h : (x >>= f) = .ok b) :
  ∃ a, x = .ok a ∧ f a = .ok b
  := by
  cases x with
  | error e => cases h
  | ok a => exact ⟨a, rfl, h⟩

/-- What comes of a check that succeeds comes of the value that it gives. -/
theorem eq_ok_of_map {x : Except ε α} {f : α → β} {b : β} (h : x.map f = .ok b) :
  ∃ a, x = .ok a ∧ f a = b
  := by
  cases x with
  | error e => cases h
  | ok a => exact ⟨a, rfl, Except.ok.inj h⟩

/-- Another error does not make a check succeed. -/
theorem eq_ok_of_mapError {x : Except ε α} {f : ε → ε'} {a : α} (h : x.mapError f = .ok a) :
  x = .ok a
  := by
  cases x with
  | error e => cases h
  | ok b => rw [Except.ok.inj h]

/-- Of checks one after the other either the first one fails, or it succeeds and the next one fails.
-/
theorem eq_error_of_bind {x : Except ε α} {f : α → Except ε β} {e : ε}
    (h : (x >>= f) = .error e) :
  x = .error e ∨ ∃ a, x = .ok a ∧ f a = .error e
  := by
  cases x with
  | error e' =>
    rw [Except.error.inj h]
    exact .inl rfl
  | ok a => exact .inr ⟨a, rfl, h⟩

/-- A check fails in the same way whatever its value would be used for. -/
theorem eq_error_of_map {x : Except ε α} {f : α → β} {e : ε} (h : x.map f = .error e) :
  x = .error e
  := by
  cases x with
  | error e' => rw [Except.error.inj h]
  | ok a => cases h

/-- The error of a check is the changed one of a check that fails. -/
theorem eq_error_of_mapError {x : Except ε α} {f : ε → ε'} {e : ε'} (h : x.mapError f = .error e) :
  ∃ e', x = .error e' ∧ f e' = e
  := by
  cases x with
  | error e' => exact ⟨e', rfl, Except.error.inj h⟩
  | ok a => cases h

variable {f : α → Except ε β} {as : List α} {bs : List β}

/-- Checking a list succeeds if every member passes. -/
theorem mapM_eq_ok (h : as.map f = bs.map .ok) :
  as.mapM f = .ok bs
  := by
  induction as generalizing bs with
  | nil =>
    obtain rfl := List.map_eq_nil_iff.mp h.symm
    rfl
  | cons a as ih =>
    match bs with
    | b :: bs =>
      obtain ⟨hhead, htail⟩ := List.cons.inj h
      rw [List.mapM_cons, hhead, ih htail]
      rfl

/-- Checking a list succeeds only if every member passes. -/
theorem map_eq_of_mapM (h : as.mapM f = .ok bs) :
  as.map f = bs.map .ok
  := by
  induction as generalizing bs with
  | nil =>
    obtain rfl := Except.ok.inj h
    rfl
  | cons a as ih =>
    rw [List.mapM_cons] at h
    obtain ⟨b, hb, h⟩ := eq_ok_of_bind h
    obtain ⟨bs', hbs, h⟩ := eq_ok_of_bind h
    obtain rfl := Except.ok.inj h
    rw [List.map_cons, List.map_cons, hb, ih hbs]

/-- Checking a list fails where a member of it fails. -/
theorem exists_of_mapM_error {e : ε} (h : as.mapM f = .error e) :
  ∃ a ∈ as, f a = .error e
  := by
  induction as with
  | nil => cases h
  | cons a as ih =>
    rw [List.mapM_cons] at h
    rcases eq_error_of_bind h with ha | ⟨b, -, h⟩
    · exact ⟨a, .head as, ha⟩
    · rcases eq_error_of_bind h with has | ⟨bs, -, h⟩
      · obtain ⟨a', hmem, ha'⟩ := ih has
        exact ⟨a', .tail a hmem, ha'⟩
      · cases h

/-- Everything that checking a list gives comes from a member of it. -/
theorem forall_of_mapM {p : α → Prop} {q : β → Prop} (hf : ∀ a b, p a → f a = .ok b → q b)
    (has : ∀ a ∈ as, p a) (h : as.mapM f = .ok bs) :
  ∀ b ∈ bs, q b
  := by
  intro b hb
  have hmem : .ok b ∈ as.map f := by
    rw [map_eq_of_mapM h]
    apply List.mem_map_of_mem hb
  obtain ⟨a, ha, hab⟩ := List.mem_map.mp hmem
  apply hf a b (has a ha) hab

end

namespace Reader

variable {α β γ ε : Type} {r q : Reader α} {f : α → Reader β} {s t : List Char} {a : α}

/-- The next character of a text, if there is one, has a property. -/
inductive Ahead (p : Char → Prop) : List Char → Prop where
  | nil : Ahead p []
  | cons {c : Char} {s : List Char} (h : p c) : Ahead p (c :: s)

/-- What is known of the next character may be weakened. -/
theorem Ahead.mono {p p' : Char → Prop} (h : Ahead p s) (hp : ∀ c, p c → p' c) :
  Ahead p' s
  := by
  cases h with
  | nil => exact .nil
  | cons hc => exact .cons (hp _ hc)

/-- What is checked of all characters of a list holds of each. -/
theorem forall_mem_of_all {cs : List Char} {p : Char → Prop} [DecidablePred p]
    (h : cs.all (fun c => decide (p c)) = true) :
  ∀ c ∈ cs, p c
  := by
  simpa only [List.all_eq_true, decide_eq_true_eq] using h

/-- What is next is one of finitely many characters, each of which has a property. -/
theorem Ahead.of_all {cs : List Char} {p : Char → Prop} [DecidablePred p]
    (h : Ahead (· ∈ cs) s) (hp : cs.all (fun c => decide (p c)) = true) :
  Ahead p s
  := by
  apply h.mono
  apply forall_mem_of_all hp

/-! ### Refusal -/

/-- The reader stops on the text. -/
def Refuses (r : Reader α) (s : List Char) : Prop := ∃ t, r s = .error t

/-- A reader that stops reads nothing. -/
theorem Refuses.ne_ok (h : Refuses r s) (p : α × List Char) :
  r s ≠ .ok p
  := by
  obtain ⟨t, ht⟩ := h
  rw [ht]
  nofun

/-- A reader stops where it does the same as one that stops. -/
theorem refuses_of_eq (h : r s = q t) (hq : Refuses q t) :
  Refuses r s
  := by
  obtain ⟨u, hu⟩ := hq
  exact ⟨u, h.trans hu⟩

/-- Readers one after the other stop where the first of them does. -/
theorem Refuses.bind (h : Refuses r s) :
  Refuses (r >>= f) s
  := by
  obtain ⟨t, ht⟩ := h
  use t
  apply bind_error ht

/-- Readers one after the other stop where the second does, on what the first one leaves. -/
theorem refuses_bind_of_ok (h : r s = .ok (a, t)) (hf : Refuses (f a) t) :
  Refuses (r >>= f) s
  := by
  obtain ⟨u, hu⟩ := hf
  use u
  rw [bind_ok h, hu]

/-- Where the first of two readers stops the second is tried. -/
theorem or_of_refuses (h : Refuses r s) :
  r.or q s = q s
  := by
  obtain ⟨t, ht⟩ := h
  apply or_of_error ht

/-- A choice stops where both readers do. -/
theorem Refuses.or (hr : Refuses r s) (hq : Refuses q s) :
  Refuses (r.or q) s
  := by
  obtain ⟨t, ht⟩ := hq
  use t
  rw [or_of_refuses hr, ht]

/-- A reader that need not read anything leaves the text as it is where it would stop. -/
theorem option_of_refuses (h : Refuses r s) :
  r.option s = .ok (none, s)
  := by
  obtain ⟨t, ht⟩ := h
  apply option_of_error ht

/-- A reader that is not to be ahead is not where it stops. -/
theorem notAhead_of_refuses (h : Refuses r s) :
  r.notAhead s = .ok ((), s)
  := by
  obtain ⟨t, ht⟩ := h
  simp [notAhead, ht]

/-- What is not to be ahead must not be read. -/
theorem refuses_notAhead (h : r s = .ok (a, t)) :
  Refuses r.notAhead s
  := by
  use s
  simp [notAhead, h]

/-- A reader that stops at the start stops on the same texts. -/
theorem Refuses.atomic (h : Refuses r s) :
  Refuses r.atomic s
  := by
  obtain ⟨t, ht⟩ := h
  use s
  apply atomic_of_error ht

/-- Telling the place does not keep a reader from stopping. -/
theorem Refuses.located (h : Refuses r s) :
  Refuses r.located s
  := by
  obtain ⟨t, ht⟩ := h
  use t
  apply located_of_error ht

/-- A repetition ends where the reader stops. -/
theorem repetition_of_refuses [Consumes r] (h : Refuses r s) :
  repetition r s = ([], s)
  := by
  obtain ⟨t, ht⟩ := h
  apply repetition_of_error ht

/-- Where a value can be read it does not matter whether one is asked for. -/
theorem many1_eq_many [Consumes r] (h : r s = .ok (a, t)) :
  many1 r s = many r s
  := by
  rw [many1, bind_ok h, many, repetition_of_ok h]
  rfl

/-! ### Characters -/

/-- A character that passes the test is read. -/
theorem satisfying_cons {p : Char → Bool} {c : Char} (h : p c = true) :
  satisfying p (c :: s) = .ok (c, s)
  := by
  rw [satisfying, if_pos h]

/-- A reader of a character stops where the next one does not pass the test. -/
theorem refuses_satisfying {p : Char → Bool} (h : Ahead (p · = false) s) :
  Refuses (satisfying p) s
  := by
  cases h with
  | nil => exact ⟨[], rfl⟩
  | @cons c s hc =>
    use c :: s
    rw [satisfying, hc]
    rfl

/-- A given character is read where it is next. -/
theorem char_cons (c : Char) :
  char c (c :: s) = .ok ((), s)
  := by
  rw [char, bind_ok (satisfying_cons (by simp))]
  rfl

/-- A given character is not read where another is next. -/
theorem refuses_char {c : Char} (h : Ahead (· ≠ c) s) :
  Refuses (char c) s
  := by
  apply Refuses.bind
  apply refuses_satisfying
  apply h.mono
  intro d hd
  simpa using hd

/-- A run is read up to a character that does not belong to it. -/
theorem run_append {p : Char → Bool} {cs : List Char} (hcs : ∀ c ∈ cs, p c = true)
    (hs : Ahead (p · = false) s) :
  run p (cs ++ s) = .ok (cs, s)
  := by
  rw [run, List.takeWhile_append_of_pos hcs, List.dropWhile_append_of_pos hcs]
  cases hs with
  | nil => simp
  | cons hc => simp [hc]

/-- Characters that pass a test are read up to the first that does not pass it, if there are any. -/
theorem run1_append {p : Char → Bool} {cs : List Char} (hne : cs ≠ []) (hcs : ∀ c ∈ cs, p c = true)
    (hs : Ahead (p · = false) s) :
  run1 p (cs ++ s) = .ok (cs, s)
  := by
  obtain ⟨c, cs, rfl⟩ := List.exists_cons_of_ne_nil hne
  obtain ⟨hc, hcs⟩ := List.forall_mem_cons.mp hcs
  rw [List.cons_append, run1, bind_ok (satisfying_cons hc), bind_ok (run_append hcs hs)]
  rfl

/-- A run of at least one character is not read where the next one does not pass the test. -/
theorem refuses_run1 {p : Char → Bool} (h : Ahead (p · = false) s) :
  Refuses (run1 p) s
  := by
  apply Refuses.bind
  apply refuses_satisfying h

/-- A given text is read where it is next. -/
theorem exactly_append (text s : List Char) :
  exactly text (text ++ s) = .ok ((), s)
  := by
  rw [exactly, if_pos (List.isPrefixOf_iff_prefix.mpr (List.prefix_append text s)),
    List.drop_left]

/-- A given text is not read where the text goes on differently. -/
theorem refuses_exactly {text : List Char} (h : text.isPrefixOf s = false) :
  Refuses (exactly text) s
  := by
  use s
  rw [exactly, h]
  rfl

/-- The text does not start with a space. -/
abbrev Spaceless (s : List Char) : Prop := Ahead (isSpace · = false) s

/-- Reading spaces drops them. -/
theorem spaces_apply (s : List Char) :
  spaces s = .ok ((), s.dropWhile isSpace)
  := rfl

/-- There are no spaces to be dropped where none is next. -/
theorem Spaceless.dropWhile (h : Spaceless s) :
  s.dropWhile isSpace = s
  := by
  cases h with
  | nil => rfl
  | cons hc => simp [hc]

/-- Where no space is next none is read. -/
theorem spaces_of_spaceless (h : Spaceless s) :
  spaces s = .ok ((), s)
  := by
  rw [spaces_apply, h.dropWhile]

/-- A single space is read as spaces. -/
theorem spaces_cons_of_spaceless (h : Spaceless s) :
  spaces (' ' :: s) = .ok ((), s)
  := by
  rw [spaces_apply, List.dropWhile_cons_of_pos (by decide), h.dropWhile]

/-- Where a space is next all spaces are read. -/
theorem spaces1_cons {c : Char} (hc : isSpace c = true) (s : List Char) :
  spaces1 (c :: s) = .ok ((), s.dropWhile isSpace)
  := by
  have hrun : run1 isSpace (c :: s) = .ok (c :: s.takeWhile isSpace, s.dropWhile isSpace) := by
    rw [run1, bind_ok (satisfying_cons hc), bind_ok rfl]
    rfl
  rw [spaces1, bind_ok hrun]
  rfl

/-- A single space is enough where one has to be there. -/
theorem spaces1_cons_of_spaceless (h : Spaceless s) :
  spaces1 (' ' :: s) = .ok ((), s)
  := by
  rw [spaces1_cons (by decide), h.dropWhile]

/-- Where a space has to be there, and none is next, the reader stops. -/
theorem refuses_spaces1 (h : Spaceless s) :
  Refuses spaces1 s
  := by
  apply Refuses.bind
  apply refuses_run1 h

/-! ### Repetition -/

section

variable {write : β → List Char} {after : List Char → Prop} {xs : List β}
  (closed : ∀ x ∈ xs, ∀ s, after (write x ++ s)) (hs : after s)

include closed hs

/-- What may follow an item follows each, if it does so before the next item and before the end. -/
theorem after_flatMap :
  after (xs.flatMap write ++ s)
  := by
  cases xs with
  | nil => apply hs
  | cons x xs =>
    rw [List.flatMap_cons, List.append_assoc]
    apply closed x (.head xs) _

/-- Items that are written one after the other are read one after the other, up to a text on
which the reader stops. -/
theorem repetition_flatMap [Consumes r] {see : α → γ} {mean : β → γ}
    (reads : ∀ x ∈ xs, ∀ s, after s → ∃ a, r (write x ++ s) = .ok (a, s) ∧ see a = mean x)
    (hend : Refuses r s) :
  ∃ as, as.map see = xs.map mean ∧ repetition r (xs.flatMap write ++ s) = (as, s)
  := by
  induction xs with
  | nil =>
    use []
    constructor
    · rfl
    · apply repetition_of_refuses hend
  | cons x xs ih =>
    have closed' : ∀ y ∈ xs, ∀ s, after (write y ++ s) := fun y hy => closed y (.tail x hy)
    obtain ⟨as, has, hrep⟩ := ih closed' fun y hy => reads y (.tail x hy)
    obtain ⟨a, ha, hsee⟩ := reads x (.head xs) _ (after_flatMap closed' hs)
    use a :: as
    constructor
    · rw [List.map_cons, List.map_cons, has, hsee]
    · rw [List.flatMap_cons, List.append_assoc, repetition_of_ok ha, hrep]

/-- What is read item by item and then checked is what the items mean. -/
theorem repetition_mapM [Consumes r] {check : α → Except ε γ} {mean : β → γ}
    (reads : ∀ x ∈ xs, ∀ s, after s →
      ∃ a, r (write x ++ s) = .ok (a, s) ∧ check a = .ok (mean x))
    (hend : Refuses r s) :
  ∃ as, as.mapM check = .ok (xs.map mean) ∧ repetition r (xs.flatMap write ++ s) = (as, s)
  := by
  obtain ⟨as, has, hrep⟩ := repetition_flatMap closed hs reads hend
  use as
  constructor
  · apply mapM_eq_ok
    rw [has, List.map_map]
    rfl
  · apply hrep

/-- A reader that stops at an item, or before what it left of one, leaves no less of a text that
is written item by item. -/
theorem repetition_jams [Consumes r] {bad : β → Prop} {jam : List Char → Prop}
    (reads : ∀ x ∈ xs, ∀ s, after s → ¬bad x → ∃ a, r (write x ++ s) = .ok (a, s))
    (jams : ∀ x ∈ xs, ∀ s, after s → bad x → jam (write x ++ s)
      ∧ ∀ a u, r (write x ++ s) = .ok (a, u) → jam u ∧ Refuses r u)
    (hxs : ∃ x ∈ xs, bad x) :
  jam (repetition r (xs.flatMap write ++ s)).2
  := by
  induction xs with
  | nil =>
    obtain ⟨x, hx, -⟩ := hxs
    cases hx
  | cons x xs ih =>
    have closed' : ∀ y ∈ xs, ∀ s, after (write y ++ s) := fun y hy => closed y (.tail x hy)
    have hafter := after_flatMap closed' hs
    rw [List.flatMap_cons, List.append_assoc]
    by_cases hx : bad x
    · obtain ⟨hjam, hok⟩ := jams x (.head xs) _ hafter hx
      cases hr : r (write x ++ (xs.flatMap write ++ s)) with
      | error u =>
        rw [repetition_of_error hr]
        apply hjam
      | ok p =>
        obtain ⟨hu, hrefuses⟩ := hok p.1 p.2 hr
        rw [repetition_of_ok hr, repetition_of_refuses hrefuses]
        apply hu
    · obtain ⟨a, ha⟩ := reads x (.head xs) _ hafter hx
      rw [repetition_of_ok ha]
      apply ih closed'
      · exact fun y hy => reads y (.tail x hy)
      · exact fun y hy => jams y (.tail x hy)
      · exact ((List.exists_mem_cons_iff _ _ _).mp hxs).resolve_left hx

end

/-- Parts whose reading does not depend on what follows are read until the reader stops. -/
theorem many_flatten [Consumes r] {as : List α} {parts : List (List Char)}
    (reads : List.Forall₂ (fun a part => ∀ s, r (part ++ s) = .ok (a, s)) as parts)
    (hs : Refuses r s) :
  many r (parts.flatten ++ s) = .ok (as, s)
  := by
  induction reads with
  | nil =>
    rw [List.flatten_nil, List.nil_append, many, repetition_of_refuses hs]
  | cons hread _ ih =>
    obtain hrep := Except.ok.inj ih
    rw [List.flatten_cons, List.append_assoc, many, repetition_of_ok (hread _), hrep]

/-- What is written item by item is read item by item, up to where the reader stops. -/
theorem many_flatMap_of_mem [Consumes r] {write : β → List Char} {mean : β → α} {xs : List β}
    (reads : ∀ x ∈ xs, ∀ s, r (write x ++ s) = .ok (mean x, s)) (hs : Refuses r s) :
  many r (xs.flatMap write ++ s) = .ok (xs.map mean, s)
  := by
  rw [List.flatMap_def]
  apply many_flatten _ hs
  rw [List.forall₂_map_left_iff, List.forall₂_map_right_iff, List.forall₂_same]
  exact reads

/-- What is written item by item is read so if this is true of every item that there could be. -/
theorem many_flatMap [Consumes r] {write : β → List Char} {mean : β → α}
    (reads : ∀ x s, r (write x ++ s) = .ok (mean x, s)) (hs : Refuses r s) (xs : List β) :
  many r (xs.flatMap write ++ s) = .ok (xs.map mean, s)
  := many_flatMap_of_mem (fun x _ => reads x) hs

/-! ### What was read -/

/-- Readers one after the other read what the first one reads, and then what the second one does. -/
theorem bind_eq_ok {b : β} (h : (r >>= f) s = .ok (b, t)) :
  ∃ a u, r s = .ok (a, u) ∧ f a u = .ok (b, t)
  := by
  cases hr : r s with
  | ok p => exact ⟨p.1, p.2, rfl, (bind_ok hr).symm.trans h⟩
  | error u => cases (bind_error hr).symm.trans h

/-- A choice reads what one of the two readers does. -/
theorem or_eq_ok {p : α × List Char} (h : r.or q s = .ok p) :
  r s = .ok p ∨ q s = .ok p
  := by
  cases hr : r s with
  | ok x =>
    rw [or_of_ok hr] at h
    exact .inl h
  | error u =>
    rw [or_of_error hr] at h
    exact .inr h

/-- What was checked not to be ahead is not read there, and nothing was taken. -/
theorem notAhead_eq_ok {a : Unit} (h : r.notAhead s = .ok (a, t)) :
  Refuses r s ∧ t = s
  := by
  cases hr : r s with
  | ok p => exact absurd h ((refuses_notAhead hr).ne_ok _)
  | error u =>
    rw [notAhead_of_refuses ⟨u, hr⟩] at h
    obtain ⟨-, rfl⟩ := Prod.mk.inj (Except.ok.inj h)
    exact ⟨⟨u, hr⟩, rfl⟩

/-- The character that is read stands at the front and passes the test. -/
theorem satisfying_eq_ok {p : Char → Bool} {c : Char} (h : satisfying p s = .ok (c, t)) :
  s = c :: t ∧ p c = true
  := by
  cases s with
  | nil => cases h
  | cons d s =>
    by_cases hd : p d = true
    · rw [satisfying_cons hd] at h
      obtain ⟨rfl, rfl⟩ := Prod.mk.inj (Except.ok.inj h)
      use rfl
    · cases (if_neg hd).symm.trans h

/-- The given character stands at the front of a text that it is read from. -/
theorem char_eq_ok {c : Char} {a : Unit} (h : char c s = .ok (a, t)) :
  s = c :: t
  := by
  obtain ⟨d, u, hd, hpure⟩ := bind_eq_ok h
  obtain ⟨rfl, hc⟩ := satisfying_eq_ok hd
  obtain ⟨-, rfl⟩ := Prod.mk.inj (Except.ok.inj hpure)
  rw [beq_iff_eq.mp hc]

/-- The run that is read stands at the front, and all of it passes the test. -/
theorem run_eq_ok {p : Char → Bool} {cs : List Char} (h : run p s = .ok (cs, t)) :
  s = cs ++ t ∧ ∀ c ∈ cs, p c = true
  := by
  obtain ⟨rfl, rfl⟩ := Prod.mk.inj (Except.ok.inj h)
  constructor
  · exact List.takeWhile_append_dropWhile.symm
  · apply List.all_eq_true.mp List.all_takeWhile

/-- The run that is read is not empty, stands at the front, and all of it passes the test. -/
theorem run1_eq_ok {p : Char → Bool} {cs : List Char} (h : run1 p s = .ok (cs, t)) :
  s = cs ++ t ∧ cs ≠ [] ∧ ∀ c ∈ cs, p c = true
  := by
  obtain ⟨c, u, hc, hrest⟩ := bind_eq_ok h
  obtain ⟨rfl, hpc⟩ := satisfying_eq_ok hc
  obtain ⟨cs', v, hcs, hpure⟩ := bind_eq_ok hrest
  obtain ⟨rfl, hall⟩ := run_eq_ok hcs
  obtain ⟨rfl, rfl⟩ := Prod.mk.inj (Except.ok.inj hpure)
  refine ⟨rfl, List.cons_ne_nil c cs', List.forall_mem_cons.mpr ⟨hpc, hall⟩⟩

/-- A reader that starts with a given character reads only texts that start with it. -/
theorem exists_cons_of_char {c : Char} {f : Unit → Reader α} {p : α × List Char}
    (h : (char c >>= f) s = .ok p) :
  ∃ u, s = c :: u
  := by
  obtain ⟨_, u, hc, -⟩ := bind_eq_ok (t := p.2) h
  use u, char_eq_ok hc

/-- What is read as spaces are spaces. -/
theorem spaces_eq_ok {a : Unit} (h : spaces s = .ok (a, t)) :
  ∃ gap, (∀ c ∈ gap, isSpace c = true) ∧ s = gap ++ t
  := by
  obtain ⟨gap, u, hrun, hpure⟩ := bind_eq_ok h
  obtain ⟨rfl, hgap⟩ := run_eq_ok hrun
  obtain ⟨-, rfl⟩ := Prod.mk.inj (Except.ok.inj hpure)
  exact ⟨gap, hgap, rfl⟩

/-- The given text stands at the front of a text that it is read from. -/
theorem exactly_eq_ok {text : List Char} {a : Unit} (h : exactly text s = .ok (a, t)) :
  s = text ++ t
  := by
  rw [exactly] at h
  split at h
  · next hprefix =>
    obtain ⟨u, rfl⟩ := List.isPrefixOf_iff_prefix.mp hprefix
    obtain ⟨-, rfl⟩ := Prod.mk.inj (Except.ok.inj h)
    rw [List.drop_left]
  · cases h

/-- Where spaces have to be there, one is next, and all of them are dropped. -/
theorem spaces1_eq_ok {a : Unit} (h : spaces1 s = .ok (a, t)) :
  ∃ c u, s = c :: u ∧ isSpace c = true ∧ t = u.dropWhile isSpace
  := by
  obtain ⟨cs, u, hrun1, hpure⟩ := bind_eq_ok h
  obtain ⟨c, v, hc, hrun⟩ := bind_eq_ok hrun1
  obtain ⟨rfl, hspace⟩ := satisfying_eq_ok hc
  obtain ⟨-, rfl⟩ := Prod.mk.inj (Except.ok.inj hpure)
  obtain ⟨-, rfl⟩ := Prod.mk.inj (Except.ok.inj hrun)
  use c, v, rfl, hspace

/-- Where spaces have to be there, spaces stand before what is left. -/
theorem exists_gap_of_spaces1 {a : Unit} (h : spaces1 s = .ok (a, t)) :
  ∃ gap, (∀ c ∈ gap, isSpace c = true) ∧ s = gap ++ t
  := by
  obtain ⟨gap, u, hrun1, hpure⟩ := bind_eq_ok h
  obtain ⟨rfl, -, hgap⟩ := run1_eq_ok hrun1
  obtain ⟨-, rfl⟩ := Prod.mk.inj (Except.ok.inj hpure)
  use gap, hgap

/-- A reader of a character stops only where the next one does not pass the test. -/
theorem ahead_of_refuses_satisfying {p : Char → Bool} (h : Refuses (satisfying p) s) :
  Ahead (p · = false) s
  := by
  cases s with
  | nil => exact .nil
  | cons c s =>
    apply Ahead.cons
    rw [Bool.eq_false_iff]
    intro hc
    apply h.ne_ok _ (satisfying_cons hc)

/-- A given character is not read only where another is next. -/
theorem ahead_of_refuses_char {c : Char} (h : Refuses (char c) s) :
  Ahead (· ≠ c) s
  := by
  cases s with
  | nil => exact .nil
  | cons d s =>
    apply Ahead.cons
    rintro rfl
    apply h.ne_ok _ (char_cons d)

/-! ### What remains -/

/-- What is left after a reading, or stands before it where it stopped. -/
def remains : Except (List Char) (α × List Char) → List Char
  | .ok p => p.2
  | .error t => t

/-- What remains after a reader that goes forward is an end of the text. -/
theorem remains_suffix [Forward r] (s : List Char) :
  remains (r s) <:+ s
  := by
  cases h : r s with
  | ok p => apply Forward.suffix_of_ok h
  | error t => apply Forward.suffix_of_error h

/-- What remains after readers one after the other is an end of the text, if that is so for each. -/
theorem remains_bind (hr : remains (r s) <:+ s)
    (hf : ∀ a t, r s = .ok (a, t) → remains (f a t) <:+ t) :
  remains ((r >>= f) s) <:+ s
  := by
  cases h : r s with
  | ok p =>
    rw [h] at hr
    rw [bind_ok h]
    apply (hf p.1 p.2 h).trans hr
  | error t =>
    rw [h] at hr
    rw [bind_error h]
    exact hr

/-- A reader goes forward if what remains is always an end of the text. -/
theorem forward_of_remains (h : ∀ s, remains (r s) <:+ s) :
  Forward r
  where
  suffix_of_ok {s t a} hok := by
    have hs := h s
    rwa [hok] at hs
  suffix_of_error {s t} herror := by
    have hs := h s
    rwa [herror] at hs

/-! ### What is given -/

/-- Every value that the reader reads has the property. -/
def Gives (r : Reader α) (p : α → Prop) : Prop := ∀ s a t, r s = .ok (a, t) → p a

/-- A property that always holds is one of all values of any reader. -/
theorem gives_any (r : Reader α) :
  Gives r fun _ => True
  := by
  intro s a t _
  trivial

/-- A reader that takes nothing gives its value. -/
theorem gives_pure {p : α → Prop} (h : p a) :
  Gives (pure a) p
  := by
  intro s b t hb
  obtain ⟨rfl, -⟩ := Prod.mk.inj (Except.ok.inj hb)
  apply h

/-- What a second reader gives may depend on the value of the first one. -/
theorem Gives.bind {p : α → Prop} {p' : β → Prop} (hr : Gives r p)
    (hf : ∀ a, p a → Gives (f a) p') :
  Gives (r >>= f) p'
  := by
  intro s b t hb
  obtain ⟨a, u, ha, hfa⟩ := bind_eq_ok hb
  apply hf a (hr s a u ha) u b t hfa

/-- What comes last decides what is given. -/
theorem gives_bind {p : β → Prop} (hf : ∀ a, Gives (f a) p) :
  Gives (r >>= f) p
  := by
  intro s b t hb
  obtain ⟨a, u, -, hfa⟩ := bind_eq_ok hb
  apply hf a u b t hfa

/-- The character that is read passes the test. -/
theorem gives_satisfying (p : Char → Bool) :
  Gives (satisfying p) fun c => p c = true
  := by
  intro s c t h
  apply (satisfying_eq_ok h).2

/-- The characters of a run pass the test. -/
theorem gives_run (p : Char → Bool) :
  Gives (run p) fun cs => ∀ c ∈ cs, p c = true
  := by
  intro s cs t h
  apply (run_eq_ok h).2

/-- A run that must not be empty is not, and its characters pass the test. -/
theorem gives_run1 (p : Char → Bool) :
  Gives (run1 p) fun cs => cs ≠ [] ∧ ∀ c ∈ cs, p c = true
  := by
  intro s cs t h
  apply (run1_eq_ok h).2

/-- A choice gives what both readers give. -/
theorem Gives.or {p : α → Prop} (hr : Gives r p) (hq : Gives q p) :
  Gives (r.or q) p
  := by
  intro s a t h
  rcases or_eq_ok h with h | h
  · apply hr s a t h
  · apply hq s a t h

/-- The value, if there is one, is as the reader gives it. -/
theorem Gives.option {p : α → Prop} (hr : Gives r p) :
  Gives r.option fun o => ∀ a ∈ o, p a
  := by
  intro s o t h a ha
  obtain rfl := ha
  cases hs : r s with
  | ok x =>
    obtain ⟨h₁, -⟩ := Prod.mk.inj (Except.ok.inj ((option_of_ok hs).symm.trans h))
    obtain rfl := Option.some.inj h₁
    apply hr s x.1 x.2 hs
  | error u => cases (option_of_error hs).symm.trans h

/-- A reader that stops at the start gives the same values. -/
theorem Gives.atomic {p : α → Prop} (hr : Gives r p) :
  Gives r.atomic p
  := by
  intro s a t h
  apply hr s a t (eq_ok_of_atomic h)

/-- With the place told, a reader gives the same values. -/
theorem Gives.located {p : α → Prop} (hr : Gives r p) :
  Gives r.located fun x => p x.2
  := by
  intro s x t h
  apply hr s x.2 t (eq_of_located h).2

/-- Every value of a repetition is as the reader gives it. -/
theorem Gives.many {p : α → Prop} [Consumes r] (hr : Gives r p) :
  Gives (many r) fun as => ∀ a ∈ as, p a
  := by
  intro s as t h
  obtain rfl : (repetition r s).1 = as := congrArg Prod.fst (Except.ok.inj h)
  clear h
  fun_induction repetition r s with
  | case1 s a u ha _ as v hrep ih =>
    intro b hb
    rcases List.mem_cons.mp hb with rfl | hb
    · apply hr s b u ha
    · rw [hrep] at ih
      apply ih b hb
  | case2 s u hu =>
    intro b hb
    cases hb

/-- There is a value in a repetition that needs one, and every value is as the reader gives it. -/
theorem Gives.many1 {p : α → Prop} [Consumes r] (hr : Gives r p) :
  Gives (many1 r) fun as => as ≠ [] ∧ ∀ a ∈ as, p a
  := by
  unfold Reader.many1
  refine hr.bind ?_
  intro a ha
  refine hr.many.bind ?_
  intro as has
  apply gives_pure
  constructor
  · apply List.cons_ne_nil a as
  · intro b hb
    rcases List.mem_cons.mp hb with rfl | hb
    · apply ha
    · apply has b hb

/-! ### Readers that agree -/

/-- Two readings end in the same way: both stop at the same place, or both leave the same text and
their values are related. -/
inductive Agrees (rel : α → β → Prop) :
    Except (List Char) (α × List Char) → Except (List Char) (β × List Char) → Prop where
  | read {a : α} {b : β} {t : List Char} (h : rel a b) : Agrees rel (.ok (a, t)) (.ok (b, t))
  | stopped {t : List Char} : Agrees rel (.error t) (.error t)

section

variable {rel : α → β → Prop}

/-- A reading ends in the same way as itself. -/
theorem agrees_eq (r : Reader α) (s : List Char) :
  Agrees Eq (r s) (r s)
  := by
  rcases r s with t | ⟨a, t⟩
  · exact .stopped
  · exact .read rfl

/-- A reading that agrees with one that stops stops at the same place. -/
theorem Agrees.eq_error {y : Except (List Char) (β × List Char)} (h : Agrees rel (.error t) y) :
  y = .error t
  := by
  cases h with
  | stopped => rfl

/-- A reading that agrees with one that succeeds leaves the same text, and its value is related. -/
theorem Agrees.exists_ok {y : Except (List Char) (β × List Char)} (h : Agrees rel (.ok (a, t)) y) :
  ∃ b, y = .ok (b, t) ∧ rel a b
  := by
  cases h with
  | read hrel => exact ⟨_, rfl, hrel⟩

/-- What goes on in the same way after readings that agree agrees. -/
theorem Agrees.bind {γ' : Type} {rel' : γ → γ' → Prop} {q : Reader β} {f : α → Reader γ}
    {g : β → Reader γ'} (h : Agrees rel (r s) (q s))
    (hf : ∀ a b t, rel a b → Agrees rel' (f a t) (g b t)) :
  Agrees rel' ((r >>= f) s) ((q >>= g) s)
  := by
  cases hr : r s with
  | error t =>
    rw [hr] at h
    rw [bind_error hr, bind_error h.eq_error]
    exact .stopped
  | ok p =>
    rw [hr] at h
    obtain ⟨b, hq, hrel⟩ := h.exists_ok
    rw [bind_ok hr, bind_ok hq]
    apply hf p.1 b p.2 hrel

end

end Reader

end Hypertext
