import Hypertext.Decimal.Shortest

/-!
# Positional decimals

`Decimal.positional` writes a decimal in full, without an exponent, and `Double.numeral` writes
a number in double precision as the positional form of its shortest decimal.
-/

namespace Hypertext

/-- The digits of a decimal before and, if it is not whole, after a point. -/
def Decimal.positional (d : Decimal) : String :=
  let digits := Nat.toDigits 10 d.digits
  if 0 ≤ d.exponent then
    String.ofList (digits ++ if d.digits = 0 then [] else List.replicate d.exponent.toNat '0')
  else
    let places := (-d.exponent).toNat
    let padded := List.replicate (places + 1 - digits.length) '0' ++ digits
    let whole := padded.length - places
    String.ofList (padded.take whole ++ '.' :: padded.drop whole)

/-- The shortest positional decimal that reads back as a number; zero keeps its sign. -/
def Double.numeral : Double → String
  | .notANumber => "NaN"
  | .infinite negative => if negative then "-inf" else "inf"
  | .finite negative magnitude => (if negative then "-" else "") ++ magnitude.shortest.positional

end Hypertext
