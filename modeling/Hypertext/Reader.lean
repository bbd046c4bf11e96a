/-!
# Readers

A `Reader` takes a value from the front of a text.  It answers with the value and what is left
of the text, or, if it stops, with what is left at the place where it stopped.

`Forward r` says that what is left is always an end of the text, and `Consumes r` that a value
never comes from nothing.  Both are found from the way a reader is put together, and `many`
repeats readers of the second kind: it ends because every value shortens the text.
-/

namespace Hypertext

/-- Reads from the front of a text. -/
def Reader (α : Type) : Type := List Char → Except (List Char) (α × List Char)

namespace Reader

variable {α β : Type}

instance : Monad Reader where
  pure a := fun s => .ok (a, s)
  bind r f := fun s =>
    match r s with
    | .ok (a, t) => f a t
    | .error t => .error t

/-- A reader that takes nothing leaves the whole text. -/
theorem pure_apply (a : α) (s : List Char) :
  (pure a : Reader α) s = .ok (a, s)
  := rfl

/-- The second reader goes on with what the first one left. -/
theorem bind_ok {r : Reader α} {f : α → Reader β} {s t : List Char} {a : α}
    (h : r s = .ok (a, t)) :
  (r >>= f) s = f a t
  := by
  simp [bind, h]

/-- Where the first reader stops the second is not tried. -/
theorem bind_error {r : Reader α} {f : α → Reader β} {s t : List Char}
    (h : r s = .error t) :
  (r >>= f) s = .error t
  := by
  simp [bind, h]

/-! ### Progress -/

/-- What a reader leaves, or has before it where it stops, is an end of the text. -/
class Forward (r : Reader α) : Prop where
  suffix_of_ok : ∀ {s t : List Char} {a : α}, r s = .ok (a, t) → t <:+ s
  suffix_of_error : ∀ {s t : List Char}, r s = .error t → t <:+ s

/-- A reader that takes at least one character for every value. -/
class Consumes (r : Reader α) : Prop where
  forward : Forward r
  shorter : ∀ {s t : List Char} {a : α}, r s = .ok (a, t) → t.length < s.length

instance (priority := low) {r : Reader α} [Consumes r] : Forward r := Consumes.forward

instance (a : α) : Forward (pure a : Reader α) where
  suffix_of_ok h := by
    obtain ⟨-, rfl⟩ := Prod.mk.inj (Except.ok.inj h)
    exact List.suffix_rfl
  suffix_of_error h := nomatch h

instance {r : Reader α} {f : α → Reader β} [Forward r] [∀ a, Forward (f a)] :
    Forward (r >>= f) where
  suffix_of_ok {s t b} h := by
    cases hr : r s with
    | ok p =>
      obtain ⟨a, u⟩ := p
      rw [bind_ok hr] at h
      exact (Forward.suffix_of_ok h).trans (Forward.suffix_of_ok hr)
    | error u => simp [bind_error hr] at h
  suffix_of_error {s t} h := by
    cases hr : r s with
    | ok p =>
      obtain ⟨a, u⟩ := p
      rw [bind_ok hr] at h
      exact (Forward.suffix_of_error h).trans (Forward.suffix_of_ok hr)
    | error u =>
      rw [bind_error hr] at h
      obtain rfl := Except.error.inj h
      exact Forward.suffix_of_error hr

instance (priority := low) consumes_bind_right {r : Reader α} {f : α → Reader β} [Forward r]
    [∀ a, Consumes (f a)] :
    Consumes (r >>= f) where
  forward := inferInstance
  shorter {s t b} h := by
    cases hr : r s with
    | ok p =>
      obtain ⟨a, u⟩ := p
      rw [bind_ok hr] at h
      have h₁ := Consumes.shorter h
      have h₂ := (Forward.suffix_of_ok hr).length_le
      omega
    | error u => simp [bind_error hr] at h

instance consumes_bind_left {r : Reader α} {f : α → Reader β} [Consumes r]
    [∀ a, Forward (f a)] :
    Consumes (r >>= f) where
  forward := inferInstance
  shorter {s t b} h := by
    cases hr : r s with
    | ok p =>
      obtain ⟨a, u⟩ := p
      rw [bind_ok hr] at h
      have h₁ := Consumes.shorter hr
      have h₂ := (Forward.suffix_of_ok h).length_le
      omega
    | error u => simp [bind_error hr] at h

/-! ### Characters -/

/-- Reads a character that passes a test. -/
def satisfying (p : Char → Bool) : Reader Char
  | c :: s => if p c then .ok (c, s) else .error (c :: s)
  | [] => .error []

instance forward_satisfying (p : Char → Bool) : Forward (satisfying p) where
  suffix_of_ok {s t a} h := by
    cases s with
    | nil => simp [satisfying] at h
    | cons c s =>
      by_cases hc : p c
      · simp only [satisfying, hc, if_true] at h
        obtain ⟨-, rfl⟩ := Prod.mk.inj (Except.ok.inj h)
        simp
      · simp [satisfying, hc] at h
  suffix_of_error {s t} h := by
    cases s with
    | nil => simp_all [satisfying]
    | cons c s => by_cases hc : p c <;> simp_all [satisfying]

instance (p : Char → Bool) : Consumes (satisfying p) where
  forward := inferInstance
  shorter {s t a} h := by
    cases s with
    | nil => simp [satisfying] at h
    | cons c s =>
      by_cases hc : p c
      · simp only [satisfying, hc, if_true] at h
        obtain ⟨-, rfl⟩ := Prod.mk.inj (Except.ok.inj h)
        simp
      · simp [satisfying, hc] at h

/-- Reads a given character. -/
def char (c : Char) : Reader Unit := do
  let _ ← satisfying (· == c)

instance (c : Char) : Consumes (char c) := by
  unfold char
  infer_instance

/-- Reads the longest run of characters that pass a test, which may be empty. -/
def run (p : Char → Bool) : Reader (List Char) := fun s =>
  .ok (s.takeWhile p, s.dropWhile p)

instance (p : Char → Bool) : Forward (run p) where
  suffix_of_ok {s t a} h := by
    obtain ⟨-, rfl⟩ := Prod.mk.inj (Except.ok.inj h)
    exact List.dropWhile_suffix p
  suffix_of_error h := nomatch h

/-- Reads the longest run of characters that pass a test, of which there has to be one. -/
def run1 (p : Char → Bool) : Reader (List Char) := do
  let c ← satisfying p
  let cs ← run p
  return c :: cs

instance (p : Char → Bool) : Consumes (run1 p) := by
  unfold run1
  infer_instance

/-- Whether a character separates the parts of a text: a space, a tab or the end of a line. -/
def isSpace (c : Char) : Bool := c = ' ' || c = '\t' || c = '\r' || c = '\n'

/-- Reads spaces, if there are any. -/
def spaces : Reader Unit := do
  let _ ← run isSpace

instance : Forward spaces := by
  unfold spaces
  infer_instance

/-- Reads spaces, at least one. -/
def spaces1 : Reader Unit := do
  let _ ← run1 isSpace

instance : Consumes spaces1 := by
  unfold spaces1
  infer_instance

/-- Reads a given text. -/
def exactly (text : List Char) : Reader Unit := fun s =>
  if text.isPrefixOf s then .ok ((), s.drop text.length) else .error s

instance (text : List Char) : Forward (exactly text) where
  suffix_of_ok {s t a} h := by
    by_cases hp : text.isPrefixOf s
    · simp only [exactly, hp, if_true] at h
      obtain ⟨-, rfl⟩ := Prod.mk.inj (Except.ok.inj h)
      apply List.drop_suffix
    · simp [exactly, hp] at h
  suffix_of_error {s t} h := by
    by_cases hp : text.isPrefixOf s
    · simp [exactly, hp] at h
    · simp_all [exactly]

instance (c : Char) (text : List Char) : Consumes (exactly (c :: text)) where
  forward := inferInstance
  shorter {s t a} h := by
    by_cases hp : (c :: text).isPrefixOf s
    · simp only [exactly, hp, if_true] at h
      obtain ⟨-, rfl⟩ := Prod.mk.inj (Except.ok.inj h)
      cases s with
      | nil => simp at hp
      | cons d s =>
        simp only [List.length_drop, List.length_cons]
        omega
    · simp [exactly, hp] at h

/-! ### Choice -/

/-- Stops at once. -/
def stop : Reader α := fun s => .error s

instance forward_stop : Forward (stop : Reader α) where
  suffix_of_ok h := nomatch h
  suffix_of_error h := by
    obtain rfl := Except.error.inj h
    exact List.suffix_rfl

instance : Consumes (stop : Reader α) where
  forward := inferInstance
  shorter h := nomatch h

/-- Reads with the first of two readers that does not stop. -/
def or (r q : Reader α) : Reader α := fun s =>
  match r s with
  | .ok p => .ok p
  | .error _ => q s

/-- A choice reads what its first reader does. -/
theorem or_of_ok {r q : Reader α} {s t : List Char} {a : α} (h : r s = .ok (a, t)) :
  r.or q s = .ok (a, t)
  := by
  simp [or, h]

/-- A choice tries its second reader where the first one stops. -/
theorem or_of_error {r q : Reader α} {s t : List Char} (h : r s = .error t) :
  r.or q s = q s
  := by
  simp [or, h]

instance {r q : Reader α} [Forward r] [Forward q] : Forward (r.or q) where
  suffix_of_ok {s t a} h := by
    cases hr : r s with
    | ok p =>
      obtain ⟨b, u⟩ := p
      rw [or_of_ok hr] at h
      exact Forward.suffix_of_ok (hr.trans h)
    | error u => exact Forward.suffix_of_ok ((or_of_error hr).symm.trans h)
  suffix_of_error {s t} h := by
    cases hr : r s with
    | ok p => simp [or_of_ok hr] at h
    | error u => exact Forward.suffix_of_error ((or_of_error hr).symm.trans h)

instance {r q : Reader α} [Consumes r] [Consumes q] : Consumes (r.or q) where
  forward := inferInstance
  shorter {s t a} h := by
    cases hr : r s with
    | ok p =>
      obtain ⟨b, u⟩ := p
      rw [or_of_ok hr] at h
      exact Consumes.shorter (hr.trans h)
    | error u => exact Consumes.shorter ((or_of_error hr).symm.trans h)

/-- Reads a value if there is one to be read. -/
def option (r : Reader α) : Reader (Option α) := fun s =>
  match r s with
  | .ok (a, t) => .ok (some a, t)
  | .error _ => .ok (none, s)

/-- A value that can be read is read. -/
theorem option_of_ok {r : Reader α} {s t : List Char} {a : α} (h : r s = .ok (a, t)) :
  r.option s = .ok (some a, t)
  := by
  simp [option, h]

/-- Where no value can be read nothing is taken. -/
theorem option_of_error {r : Reader α} {s t : List Char} (h : r s = .error t) :
  r.option s = .ok (none, s)
  := by
  simp [option, h]

instance {r : Reader α} [Forward r] : Forward r.option where
  suffix_of_ok {s t a} h := by
    cases hr : r s with
    | ok p =>
      obtain ⟨b, u⟩ := p
      rw [option_of_ok hr] at h
      obtain ⟨-, rfl⟩ := Prod.mk.inj (Except.ok.inj h)
      exact Forward.suffix_of_ok hr
    | error u =>
      rw [option_of_error hr] at h
      obtain ⟨-, rfl⟩ := Prod.mk.inj (Except.ok.inj h)
      exact List.suffix_rfl
  suffix_of_error {s t} h := by
    cases hr : r s with
    | ok p => simp [option_of_ok hr] at h
    | error u => simp [option_of_error hr] at h

/-- Takes nothing, and stops where another reader would not. -/
def notAhead (r : Reader α) : Reader Unit := fun s =>
  match r s with
  | .ok _ => .error s
  | .error _ => .ok ((), s)

instance {r : Reader α} : Forward r.notAhead where
  suffix_of_ok {s t a} h := by
    cases hr : r s <;> simp_all [notAhead]
  suffix_of_error {s t} h := by
    cases hr : r s <;> simp_all [notAhead]

/-- Reads a value, or stops at the start. -/
def atomic (r : Reader α) : Reader α := fun s =>
  match r s with
  | .ok p => .ok p
  | .error _ => .error s

/-- A value that is read is not changed. -/
theorem atomic_of_ok {r : Reader α} {s t : List Char} {a : α} (h : r s = .ok (a, t)) :
  r.atomic s = .ok (a, t)
  := by
  simp [atomic, h]

/-- The place where the reader stopped is forgotten. -/
theorem atomic_of_error {r : Reader α} {s t : List Char} (h : r s = .error t) :
  r.atomic s = .error s
  := by
  simp [atomic, h]

/-- Values are read as without forgetting the place. -/
theorem eq_ok_of_atomic {r : Reader α} {s : List Char} {p : α × List Char}
    (h : r.atomic s = .ok p) :
  r s = .ok p
  := by
  cases hr : r s <;> simp_all [atomic]

instance {r : Reader α} [Forward r] : Forward r.atomic where
  suffix_of_ok h := Forward.suffix_of_ok (eq_ok_of_atomic h)
  suffix_of_error {s t} h := by
    cases hr : r s with
    | ok p => simp [atomic, hr] at h
    | error u =>
      rw [atomic_of_error hr] at h
      obtain rfl := Except.error.inj h
      exact List.suffix_rfl

instance {r : Reader α} [Consumes r] : Consumes r.atomic where
  forward := inferInstance
  shorter h := Consumes.shorter (eq_ok_of_atomic h)

/-- Reads a value and tells what was left of the text before it. -/
def located (r : Reader α) : Reader (List Char × α) := fun s =>
  match r s with
  | .ok (a, t) => .ok ((s, a), t)
  | .error t => .error t

/-- The text before the reading is told with the value. -/
theorem located_of_ok {r : Reader α} {s t : List Char} {a : α} (h : r s = .ok (a, t)) :
  r.located s = .ok ((s, a), t)
  := by
  simp [located, h]

/-- The place where the reader stopped is not changed. -/
theorem located_of_error {r : Reader α} {s t : List Char} (h : r s = .error t) :
  r.located s = .error t
  := by
  simp [located, h]

/-- The place that is told is where the value was read. -/
theorem eq_of_located {r : Reader α} {s t : List Char} {p : List Char × α}
    (h : r.located s = .ok (p, t)) :
  p.1 = s ∧ r s = .ok (p.2, t)
  := by
  cases hr : r s with
  | ok q =>
    obtain ⟨a, u⟩ := q
    rw [located_of_ok hr] at h
    obtain ⟨rfl, rfl⟩ := Prod.mk.inj (Except.ok.inj h)
    exact ⟨rfl, rfl⟩
  | error u => simp [located_of_error hr] at h

instance {r : Reader α} [Forward r] : Forward r.located where
  suffix_of_ok h := Forward.suffix_of_ok (eq_of_located h).2
  suffix_of_error {s t} h := by
    cases hr : r s with
    | ok p => simp [located_of_ok hr] at h
    | error u =>
      rw [located_of_error hr] at h
      obtain rfl := Except.error.inj h
      exact Forward.suffix_of_error hr

instance {r : Reader α} [Consumes r] : Consumes r.located where
  forward := inferInstance
  shorter h := Consumes.shorter (eq_of_located h).2

/-! ### Repetition -/

/-- The values that a reader takes one after the other until it stops, and what is left then. -/
def repetition (r : Reader α) [Consumes r] (s : List Char) : List α × List Char :=
  match h : r s with
  | .ok (a, t) =>
    have := Consumes.shorter h
    let (as, u) := repetition r t
    (a :: as, u)
  | .error _ => ([], s)
termination_by s.length

/-- A repetition reads a value and goes on with what is left. -/
theorem repetition_of_ok {r : Reader α} [Consumes r] {s t : List Char} {a : α}
    (h : r s = .ok (a, t)) :
  repetition r s = (a :: (repetition r t).1, (repetition r t).2)
  := by
  rw [repetition]
  split
  · next h' => simp_all
  · next h' => simp_all

/-- A repetition ends where the reader stops. -/
theorem repetition_of_error {r : Reader α} [Consumes r] {s t : List Char}
    (h : r s = .error t) :
  repetition r s = ([], s)
  := by
  rw [repetition]
  split
  · next h' => simp_all
  · rfl

/-- What a repetition leaves is an end of the text. -/
theorem repetition_suffix {r : Reader α} [Consumes r] (s : List Char) :
  (repetition r s).2 <:+ s
  := by
  fun_induction repetition r s with
  | case1 s a t h _ as u hu ih =>
    rw [hu] at ih
    exact ih.trans (Forward.suffix_of_ok h)
  | case2 => exact List.suffix_rfl

/-- Reads values until there is none to be read. -/
def many (r : Reader α) [Consumes r] : Reader (List α) := fun s => .ok (repetition r s)

instance {r : Reader α} [Consumes r] : Forward (many r) where
  suffix_of_ok {s t a} h := by
    obtain h := Except.ok.inj h
    have := repetition_suffix (r := r) s
    rwa [h] at this
  suffix_of_error h := nomatch h

/-- Reads values, at least one, until there is none to be read. -/
def many1 (r : Reader α) [Consumes r] : Reader (List α) := do
  let a ← r
  let as ← many r
  return a :: as

instance {r : Reader α} [Consumes r] : Consumes (many1 r) := by
  unfold many1
  infer_instance

end Reader

end Hypertext
