/-!
# Digits

Numbers written in decimal or hexadecimal: `hexadecimal` writes the number of a character, and
`numberOf` is the number that a run of digits writes.
-/

namespace Hypertext.Text

/-- The lower-case hexadecimal digits of a character's number. -/
def hexadecimal (c : Char) : String :=
  String.ofList (Nat.toDigits 16 c.toNat)

/-- Whether a character is a hexadecimal digit. -/
def isHexDigit (c : Char) : Bool :=
  c.isDigit || 'a' ≤ c && c ≤ 'f' || 'A' ≤ c && c ≤ 'F'

/-- The value of a digit; a letter counts on from nine, in either case. -/
def digitValue (c : Char) : Nat :=
  if c.isDigit then c.toNat - '0'.toNat else c.toLower.toNat - 'a'.toNat + 10

/-- The number that digits write in a base. -/
def numberOf (base : Nat) (digits : List Char) : Nat :=
  digits.foldl (fun n c => base * n + digitValue c) 0

/-- Every digit that is written reads back. -/
theorem digitValue_digitChar {n : Nat} (h : n < 16) :
  digitValue n.digitChar = n
  := by
  revert n
  decide

/-- One more digit multiplies the number by the base and adds the value of the digit. -/
theorem numberOf_append_singleton (base : Nat) (digits : List Char) (c : Char) :
  numberOf base (digits ++ [c]) = base * numberOf base digits + digitValue c
  := by
  simp [numberOf]

/-- The digits of a number write that number. -/
theorem numberOf_toDigits {base : Nat} (hbase : 1 < base) (hsmall : base ≤ 16) (n : Nat) :
  numberOf base (Nat.toDigits base n) = n
  := by
  induction n using Nat.strongRecOn with
  | ind n ih =>
    by_cases h : n < base
    · rw [Nat.toDigits_of_lt_base h]
      simpa [numberOf] using digitValue_digitChar (Nat.lt_of_lt_of_le h hsmall)
    · have hlast : n % base < base := Nat.mod_lt n (by omega)
      rw [Nat.toDigits_of_base_le hbase (by omega), numberOf_append_singleton,
        ih (n / base) (Nat.div_lt_self (by omega) hbase), digitValue_digitChar (by omega),
        Nat.div_add_mod]

end Hypertext.Text
