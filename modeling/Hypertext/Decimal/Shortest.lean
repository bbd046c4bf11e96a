/-!
# The shortest decimal of a binary number

A binary floating-point number `m * 2 ^ q` stands for all reals that round to it, an interval
around it.  `Binary.shortest?` looks for the coarsest decimal grid, the multiples of a power of
ten, with a point in that interval, and takes the point of that grid nearest to the number: no
decimal with fewer digits reads back as the number.  All comparisons are exact.
-/

namespace Hypertext

/-- A number `digits * 10 ^ exponent`. -/
structure Decimal where
  digits : Nat
  exponent : Int
deriving DecidableEq, Repr

/-- A number `mantissa * 2 ^ exponent`.  It `isBinade` when the next smaller number of its format
is only half as far away as the next greater one. -/
structure Binary where
  mantissa : Nat
  exponent : Int
  isBinade : Bool
deriving DecidableEq, Repr

namespace Binary

/-- The numerator of a power. -/
def powerUp (base : Nat) (exponent : Int) : Nat := Nat.pow base exponent.toNat

/-- The denominator of a power. -/
def powerDown (base : Nat) (exponent : Int) : Nat := Nat.pow base (-exponent).toNat

/-- The lower end of the reals that round to a number, in quarters of its last place. -/
def lower (b : Binary) : Nat := 4 * b.mantissa - if b.isBinade then 1 else 2

/-- The upper end of the reals that round to a number, in quarters of its last place. -/
def upper (b : Binary) : Nat := 4 * b.mantissa + 2

/-- The size of a quarter of the last place and that of a step of the decimal grid, both as
multiples of one unit. -/
def scales (b : Binary) (grid : Int) : Nat × Nat :=
  (powerUp 2 (b.exponent - 2) * powerDown 10 grid, powerUp 10 grid * powerDown 2 (b.exponent - 2))

/-- Whether the point `c * 10 ^ grid` rounds to a number; the ends of the interval do if the
mantissa is even. -/
def accepts (b : Binary) (grid : Int) (c : Nat) : Bool :=
  let (quarter, step) := b.scales grid
  if b.mantissa % 2 = 0 then b.lower * quarter ≤ c * step && c * step ≤ b.upper * quarter
  else b.lower * quarter < c * step && c * step < b.upper * quarter

/-- The point of a decimal grid that is nearest to a number among the points that round to it;
the greater one if two are equally near. -/
def nearest? (b : Binary) (grid : Int) : Option Decimal :=
  let (quarter, step) := b.scales grid
  let value := 4 * b.mantissa * quarter
  let below := value / step
  let above := below + 1
  if b.accepts grid above && (!b.accepts grid below || above * step - value ≤ value - below * step)
  then some ⟨above, grid⟩
  else if b.accepts grid below then some ⟨below, grid⟩
  else none

/-- The decimal of fewest digits that rounds to a number, among the grids from `10 ^ top` down
to `10 ^ (top - count)`. -/
def shortest? (b : Binary) (top : Int) (count : Nat) : Option Decimal :=
  (List.range (count + 1)).findSome? fun (i : Nat) => b.nearest? (top - i)

end Binary

/-- What a number in double precision is. -/
inductive Double where
  | notANumber
  | infinite (negative : Bool)
  | finite (negative : Bool) (magnitude : Binary)

namespace Double

/-- The number of fractions, which fill the 52 low bits. -/
def fractions : Nat := 0x10000000000000

/-- The number of exponents, which fill the 11 bits above the fraction. -/
def exponents : Nat := 0x800

/-- Reads the sign, the exponent and the fraction of a number in double precision. -/
def ofBits (bits : UInt64) : Double :=
  let fraction := bits.toNat % fractions
  let exponent := bits.toNat / fractions % exponents
  let negative := bits.toNat / fractions / exponents = 1
  if exponent = exponents - 1 then if fraction = 0 then .infinite negative else .notANumber
  else if exponent = 0 then .finite negative ⟨fraction, -1074, false⟩
  else
    let isBinade := fraction = 0 && exponent ≠ 1
    .finite negative ⟨fractions + fraction, (exponent : Int) - 1075, isBinade⟩

end Double

/-- The decimal of fewest digits that reads back as a number in double precision; the grids from
`10 ^ 309` down to `10 ^ (-324)` leave out none of these numbers but zero. -/
def Binary.shortest (b : Binary) : Decimal :=
  (b.shortest? 309 633).getD ⟨0, 0⟩

end Hypertext
