import Hypertext.Reader
import Hypertext.Text.Digits

/-!
# Character references

`escapeText` and `escapeAttribute` replace the characters that mean something in HTML by
references, and `decode` replaces references by the characters they stand for, in one pass from
the front.  What looks like a reference but is none stays as it is.
-/

namespace Hypertext.Html

/-! ### Writing -/

/-- A character of the text of an element. -/
def escapeTextChar (c : Char) : String :=
  match c with
  | '&' => "&amp;"
  | '\'' => "&#x27;"
  | '"' => "&quot;"
  | '<' => "&lt;"
  | '>' => "&gt;"
  | c => String.singleton c

/-- A text with a character replaced wherever it stands. -/
def replaceChar (c : Char) (text s : String) : String :=
  String.join (s.toList.map fun d => if d = c then text else String.singleton d)

/-- The text of an element with its special characters replaced. -/
def escapeText (s : String) : String := String.join (s.toList.map escapeTextChar)

/-- A value with its special characters replaced, for use between single quotes. -/
def escapeAttribute (s : String) : String :=
  replaceChar '\'' "&#x27;" (replaceChar '&' "&amp;" s)

/-! ### Reading -/

/-- The names of characters. -/
def entities : List (List Char × Char) :=
  [(['a', 'm', 'p'], '&'), (['l', 't'], '<'), (['g', 't'], '>'), (['q', 'u', 'o', 't'], '"'),
    (['a', 'p', 'o', 's'], '\''), (['n', 'b', 's', 'p'], '\xa0')]

/-- Reads the name of a character. -/
def namedEntity : Reader Char := fun s =>
  match entities.find? fun e => e.1.isPrefixOf s with
  | some (name, c) => .ok (c, s.drop name.length)
  | none => .error s

instance : namedEntity.Forward where
  suffix_of_ok {s t a} h := by
    simp only [namedEntity] at h
    split at h
    · obtain ⟨-, rfl⟩ := Prod.mk.inj (Except.ok.inj h)
      apply List.drop_suffix
    · simp at h
  suffix_of_error {s t} h := by
    simp only [namedEntity] at h
    split at h
    · simp at h
    · obtain rfl := Except.error.inj h
      exact List.suffix_rfl

/-- Reads the number of a character, in hexadecimal after an `x`, else in decimal. -/
def number : Reader Nat :=
  Reader.or
    (do
      let _ ← Reader.satisfying fun c => c = 'x' || c = 'X'
      return Text.numberOf 16 (← Reader.run1 Text.isHexDigit))
    (do return Text.numberOf 10 (← Reader.run1 Char.isDigit))

instance : number.Forward := by
  unfold number
  infer_instance

/-- The character with a number, if there is one. -/
def characterOf (n : Nat) : Reader Char :=
  if n.isValidChar then pure (Char.ofNat n) else Reader.stop

instance (n : Nat) : (characterOf n).Forward := by
  unfold characterOf
  split <;> infer_instance

/-- Reads a reference by number, without the signs around it. -/
def numericEntity : Reader Char := do
  Reader.char '#'
  let n ← number
  characterOf n

instance : numericEntity.Forward := by
  unfold numericEntity
  infer_instance

/-- Reads a reference. -/
def entity : Reader Char := do
  Reader.char '&'
  let c ← numericEntity.or namedEntity
  Reader.char ';'
  return c

instance : entity.Consumes := by
  unfold entity
  infer_instance

/-- A text with its references replaced by the characters they stand for. -/
def decode (s : List Char) : List Char :=
  match h : entity s with
  | .ok (c, t) =>
    have := Reader.Consumes.shorter h
    c :: decode t
  | .error _ =>
    match s with
    | [] => []
    | c :: cs => c :: decode cs
termination_by s.length

/-- A reference that can be read is replaced by its character. -/
theorem decode_of_entity {s t : List Char} {c : Char} (h : entity s = .ok (c, t)) :
  decode s = c :: decode t
  := by
  rw [decode]
  split
  · next h' => simp_all
  · next h' => simp_all

/-- A character at which no reference can be read stands for itself. -/
theorem decode_cons {c : Char} {s t : List Char} (h : entity (c :: s) = .error t) :
  decode (c :: s) = c :: decode s
  := by
  rw [decode]
  split
  · next h' => simp_all
  · rfl

theorem decode_nil :
  decode [] = []
  := by
  rw [decode]
  rfl

end Hypertext.Html
