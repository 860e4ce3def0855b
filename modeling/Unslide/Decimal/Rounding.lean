/-!
# Unslide.Decimal.Rounding

Rounding an exact quotient of natural numbers to the nearest whole number. An exact half goes to
the even neighbour or to the upper one.
-/

namespace Unslide
namespace Decimal

/-- Where an exact half goes. -/
inductive Tie where
  | toEven
  | up
  deriving DecidableEq, Repr

/-- The whole number nearest to `num / den`. -/
def roundDiv (tie : Tie) (num den : Nat) : Nat :=
  let quotient := num / den
  let twice := 2 * (num % den)
  if twice < den then quotient
  else if den < twice then quotient + 1
  else
    match tie with
    | .up => quotient + 1
    | .toEven => quotient + quotient % 2

end Decimal
end Unslide
