/-!
# UTF-8

`decode` reads bytes as UTF-8.  Where they are not well formed it gives nothing for the longest
run of bytes that could have started a character, or for a single byte.  `toText?` reads only
well-formed bytes, and `toTextLossy` puts the replacement character where nothing was read.
-/

namespace Hypertext.Utf8

/-- What the first byte of a character says: the bits it carries, the bounds of the second byte
and the number of bytes after the first. -/
structure Lead where
  bits : Nat
  low : UInt8
  high : UInt8
  count : Nat

/-- The role of a byte that starts a character of several bytes. -/
def lead? (b : UInt8) : Option Lead :=
  if 0xc2 ≤ b && b ≤ 0xdf then some ⟨b.toNat - 0xc0, 0x80, 0xbf, 1⟩
  else if b = 0xe0 then some ⟨0, 0xa0, 0xbf, 2⟩
  else if b = 0xed then some ⟨0xd, 0x80, 0x9f, 2⟩
  else if 0xe1 ≤ b && b ≤ 0xef then some ⟨b.toNat - 0xe0, 0x80, 0xbf, 2⟩
  else if b = 0xf0 then some ⟨0, 0x90, 0xbf, 3⟩
  else if 0xf1 ≤ b && b ≤ 0xf3 then some ⟨b.toNat - 0xf0, 0x80, 0xbf, 3⟩
  else if b = 0xf4 then some ⟨4, 0x80, 0x8f, 3⟩
  else none

/-- Reads the bytes after the first one, the next of them within bounds. -/
def tail (low high : UInt8) (bits : Nat) : Nat → List UInt8 → Option Char × List UInt8
  | 0, bytes => (some (Char.ofNat bits), bytes)
  | _ + 1, [] => (none, [])
  | n + 1, b :: bytes =>
    if low ≤ b && b ≤ high then tail 0x80 0xbf (64 * bits + (b.toNat - 0x80)) n bytes
    else (none, b :: bytes)

/-- What comes after a character is no longer than what came before. -/
theorem length_tail (low high : UInt8) (bits n : Nat) (bytes : List UInt8) :
  (tail low high bits n bytes).2.length ≤ bytes.length
  := by
  induction n generalizing low high bits bytes with
  | zero => exact Nat.le_refl _
  | succ n ih =>
    cases bytes with
    | nil => exact Nat.le_refl _
    | cons b bytes =>
      rw [tail]
      split
      · exact Nat.le_succ_of_le (ih ..)
      · exact Nat.le_refl _

/-- The characters that bytes encode, and nothing in place of what encodes none. -/
def decode : List UInt8 → List (Option Char)
  | [] => []
  | b :: bytes =>
    if b < 0x80 then some (Char.ofNat b.toNat) :: decode bytes
    else
      match lead? b with
      | none => none :: decode bytes
      | some l =>
        have := length_tail l.low l.high l.bits l.count bytes
        let r := tail l.low l.high l.bits l.count bytes
        r.1 :: decode r.2
termination_by bytes => bytes.length
decreasing_by all_goals (simp only [List.length_cons]; omega)

/-- The text that bytes encode, if they are well formed. -/
def toText? (bytes : List UInt8) : Option String :=
  ((decode bytes).mapM id).map String.ofList

/-- The text that bytes encode, with the replacement character for what encodes none. -/
def toTextLossy (bytes : List UInt8) : String :=
  String.ofList ((decode bytes).map (·.getD '\ufffd'))

end Hypertext.Utf8
