import Unslide.Decimal.Binary64
import Unslide.Text.Numeral

/-!
# Unslide.Decimal.Fixed

A double with a fixed number of decimal places. The exact binary value is rounded once, an exact
half to the even digit.
-/

namespace Unslide
namespace Decimal

/-- A dyadic fraction in units of `10 ^ -places`, rounded to a whole number. -/
def Dyadic.inUnits (d : Dyadic) (places : Nat) : Nat :=
  roundDiv .toEven (d.mantissa * Nat.pow 2 d.exponent.toNat * Nat.pow 10 places)
    (Nat.pow 2 (-d.exponent).toNat)

/-- A number of units of `10 ^ -places` with its point; `places` is not zero. -/
def unitsText (units places : Nat) : String :=
  let fraction := Nat.toDigits 10 (units % Nat.pow 10 places)
  Text.decimal (units / Nat.pow 10 places) ++ "." ++
    String.ofList (List.replicate (places - fraction.length) '0' ++ fraction)

def fixed (places : Nat) (x : Float) : String :=
  match classify x with
  | .notANumber => "NaN"
  | .infinite negative => if negative then "-inf" else "inf"
  | .finite d => (if d.negative then "-" else "") ++ unitsText (d.inUnits places) places

end Decimal
end Unslide
