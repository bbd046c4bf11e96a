import Hypertext.Text.Digits
import Mathlib.Data.List.Forall2
import Mathlib.Data.List.Induction

/-!
# Numbers in digits

`Writes base n digits` says that digits write a number: they are its digits in a base, each letter
in either case, after any number of zeros.  Every run of digits of a base writes one number, the one
that `numberOf` gives, as `writes_iff` says.
-/

namespace Hypertext.Text

/-! ### Digits -/

/-- The character is the digit, or the letter of the digit in upper case. -/
def InEitherCase (c digit : Char) : Prop := c = digit ∨ c = digit.toUpper

instance (c digit : Char) : Decidable (InEitherCase c digit) :=
  inferInstanceAs (Decidable (_ ∨ _))

/-- The character is a digit of the base, in either case. -/
def IsDigitOf (base : Nat) (c : Char) : Prop := ∃ v < base, InEitherCase c v.digitChar

/-- A digit has its value in either case. -/
theorem digitValue_of_inEitherCase {c : Char} {v : Nat} (hv : v < 16)
    (h : InEitherCase c v.digitChar) :
  digitValue c = v
  := by
  rcases h with rfl | rfl
  · apply digitValue_digitChar hv
  · revert v
    decide

/-- A test that only characters of ASCII pass, and among these just the digits of a base, is that
for the digits of the base. -/
theorem iff_isDigitOf {p : Char → Bool} {base : Nat} (hascii : ∀ c, p c → c.toNat < 128)
    (htable : ∀ n < 128, p (Char.ofNat n) →
      ∃ v < base, InEitherCase (Char.ofNat n) v.digitChar)
    (hdigits : ∀ v < base, p v.digitChar ∧ p v.digitChar.toUpper) (c : Char) :
  p c ↔ IsDigitOf base c
  := by
  constructor
  · intro h
    have hc := htable c.toNat (hascii c h)
    rw [c.ofNat_toNat] at hc
    apply hc h
  · rintro ⟨v, hv, rfl | rfl⟩
    · exact (hdigits v hv).1
    · exact (hdigits v hv).2

/-- The decimal digits are the digits of base ten. -/
theorem isDigit_iff (c : Char) :
  c.isDigit ↔ IsDigitOf 10 c
  := by
  have hascii : ∀ c : Char, c.isDigit → c.toNat < 128 := by
    intro c h
    delta Char.isDigit at h
    simp only [Bool.and_eq_true, decide_eq_true_eq, Char.reduceVal, UInt32.le_iff_toNat_le,
      UInt32.reduceToNat, ge_iff_le, Char.toNat_val] at h
    omega
  apply iff_isDigitOf hascii
  · decide +kernel
  · decide

/-- The hexadecimal digits are the digits of base sixteen, in either case. -/
theorem isHexDigit_iff (c : Char) :
  isHexDigit c ↔ IsDigitOf 16 c
  := by
  have hascii : ∀ c, isHexDigit c → c.toNat < 128 := by
    intro c h
    delta isHexDigit Char.isDigit at h
    simp only [Bool.or_eq_true, Bool.and_eq_true, decide_eq_true_eq, Char.le_def, Char.reduceVal,
      UInt32.le_iff_toNat_le, UInt32.reduceToNat, ge_iff_le, Char.toNat_val] at h
    omega
  apply iff_isDigitOf hascii
  · decide +kernel
  · decide

/-! ### Numbers -/

/-- The digits are those of the number in a base, in either case, after any number of zeros. -/
def Writes (base n : Nat) (digits : List Char) : Prop :=
  ∃ zeros, List.Forall₂ InEitherCase digits (List.replicate zeros '0' ++ Nat.toDigits base n)

/-- A number is written by its own digits. -/
theorem writes_toDigits (base n : Nat) :
  Writes base n (Nat.toDigits base n)
  := by
  use 0
  rw [List.replicate_zero, List.nil_append, List.forall₂_same]
  exact fun d _ => .inl rfl

/-- The number depends on the values of the digits only. -/
theorem numberOf_eq_foldl (base : Nat) (digits : List Char) :
  numberOf base digits = (digits.map digitValue).foldl (fun n v => base * n + v) 0
  := List.foldl_map.symm

/-- Zeros in front do not count. -/
theorem numberOf_replicate_append (base zeros : Nat) (digits : List Char) :
  numberOf base (List.replicate zeros '0' ++ digits) = numberOf base digits
  := by
  induction zeros with
  | zero => rfl
  | succ zeros ih =>
    have hzero : numberOf base ('0' :: (List.replicate zeros '0' ++ digits))
        = numberOf base (List.replicate zeros '0' ++ digits) := rfl
    rw [List.replicate_succ, List.cons_append, hzero, ih]

section

variable {base : Nat} (hbase : 1 < base)

include hbase

/-- The digits of a number are digits of the base. -/
theorem exists_of_mem_toDigits {n : Nat} {d : Char} (h : d ∈ Nat.toDigits base n) :
  ∃ v < base, d = v.digitChar
  := by
  induction n using Nat.strongRecOn with
  | ind n ih =>
    by_cases hn : n < base
    · rw [Nat.toDigits_of_lt_base hn, List.mem_singleton] at h
      use n, hn
    · have hpos : 0 < n := by omega
      rw [Nat.toDigits_of_base_le hbase (by omega)] at h
      rcases List.mem_append.mp h with h | h
      · apply ih (n / base) (Nat.div_lt_self hpos hbase) h
      · use n % base, Nat.mod_lt n (by omega)
        rwa [← List.mem_singleton]

variable (hsmall : base ≤ 16)

include hsmall

omit hbase in
/-- Digits in either case are digits of the base with the same values. -/
theorem map_digitValue_of_inEitherCase {digits ds : List Char}
    (h : List.Forall₂ InEitherCase digits ds) (hds : ∀ d ∈ ds, ∃ v < base, d = v.digitChar) :
  (∀ c ∈ digits, IsDigitOf base c) ∧ digits.map digitValue = ds.map digitValue
  := by
  induction h with
  | nil => exact ⟨nofun, rfl⟩
  | cons hcase _ ih =>
    obtain ⟨⟨v, hv, rfl⟩, hrest⟩ := List.forall_mem_cons.mp hds
    obtain ⟨hdigits, hvalues⟩ := ih hrest
    have hvalue := digitValue_of_inEitherCase (by omega) hcase
    constructor
    · exact List.forall_mem_cons.mpr ⟨⟨v, hv, hcase⟩, hdigits⟩
    · rw [List.map_cons, List.map_cons, hvalue, hvalues, digitValue_digitChar (by omega)]

/-- What writes a number are digits, and they are read as that number. -/
theorem Writes.numberOf_eq {n : Nat} {digits : List Char} (h : Writes base n digits) :
  digits ≠ [] ∧ (∀ d ∈ digits, IsDigitOf base d) ∧ numberOf base digits = n
  := by
  obtain ⟨zeros, hdigits⟩ := h
  have hvalues : ∀ d ∈ List.replicate zeros '0' ++ Nat.toDigits base n,
      ∃ v < base, d = v.digitChar := by
    intro d hd
    rcases List.mem_append.mp hd with hd | hd
    · use 0, by omega
      apply List.eq_of_mem_replicate hd
    · apply exists_of_mem_toDigits hbase hd
  obtain ⟨hdigits', hmap⟩ := map_digitValue_of_inEitherCase hsmall hdigits hvalues
  refine ⟨?_, hdigits', ?_⟩
  · rintro rfl
    have hnil := List.forall₂_nil_left_iff.mp hdigits
    apply Nat.toDigits_ne_nil (List.append_eq_nil_iff.mp hnil).2
  · rw [numberOf_eq_foldl, hmap, ← numberOf_eq_foldl, numberOf_replicate_append,
      numberOf_toDigits hbase hsmall]

/-- Digits write the number that they are read as.  If there are only zeros before the last digit,
they all stand in front of what writes it. -/
theorem writes_numberOf {digits : List Char} (hne : digits ≠ [])
    (hdigits : ∀ d ∈ digits, IsDigitOf base d) :
  Writes base (numberOf base digits) digits
  := by
  induction digits using List.reverseRecOn with
  | nil => exact absurd rfl hne
  | append_singleton ds d ih =>
    obtain ⟨hds, hd⟩ := List.forall_mem_append.mp hdigits
    obtain ⟨v, hv, hcase⟩ := hd d (.head [])
    have hlast : List.Forall₂ InEitherCase [d] (Nat.toDigits base v) := by
      rw [Nat.toDigits_of_lt_base hv]
      exact .cons hcase .nil
    rw [numberOf_append_singleton, digitValue_of_inEitherCase (by omega) hcase]
    by_cases hnil : ds = []
    · subst hnil
      use 0
      simpa [numberOf] using hlast
    · obtain ⟨zeros, hfront⟩ := ih hnil hds
      rcases Nat.eq_zero_or_pos (numberOf base ds) with hzero | hpos
      · use zeros + 1
        rw [hzero, Nat.toDigits_of_lt_base (by omega)] at hfront
        rw [hzero, Nat.mul_zero, Nat.zero_add, List.replicate_succ']
        apply List.rel_append hfront hlast
      · use zeros
        rw [← Nat.toDigits_append_toDigits hbase hpos hv, ← List.append_assoc]
        apply List.rel_append hfront hlast

/-- Digits write the number that they are read as, and no other. -/
theorem writes_iff {n : Nat} {digits : List Char} :
  Writes base n digits
    ↔ digits ≠ [] ∧ (∀ d ∈ digits, IsDigitOf base d) ∧ numberOf base digits = n
  := by
  constructor
  · exact Writes.numberOf_eq hbase hsmall
  · rintro ⟨hne, hdigits, rfl⟩
    apply writes_numberOf hbase hsmall hne hdigits

end

/-- Hexadecimal digits, at least one, write the number that they are read as. -/
theorem writes_hexadecimal_iff {n : Nat} {digits : List Char} :
  Writes 16 n digits
    ↔ digits ≠ [] ∧ (∀ d ∈ digits, isHexDigit d) ∧ numberOf 16 digits = n
  := by
  simp only [isHexDigit_iff]
  apply writes_iff (by decide) (by decide)

/-- A number is written in decimal by the digits that are read as it. -/
theorem writes_decimal_iff {n : Nat} {digits : List Char} :
  Writes 10 n digits ↔ digits ≠ [] ∧ (∀ d ∈ digits, d.isDigit) ∧ numberOf 10 digits = n
  := by
  simp only [isDigit_iff]
  apply writes_iff (by decide) (by decide)

/-- Three zeros and a letter in upper case are one way to write a number. -/
example : Writes 16 0xe9 ['0', '0', '0', 'E', '9'] := ⟨3, by decide⟩

end Hypertext.Text
