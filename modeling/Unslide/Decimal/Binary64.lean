import Unslide.Decimal.Rounding

/-!
# Unslide.Decimal.Binary64

Double-precision numbers as exact dyadic fractions: a finite double is `± mantissa · 2 ^ exponent`
with a mantissa below `2 ^ 53`. `classify` takes a double apart by its bits; `nearest` builds the
double closest to an exact quotient, a half going to the even mantissa.
-/

namespace Unslide
namespace Decimal

/-- The number `± mantissa · 2 ^ exponent`. -/
structure Dyadic where
  negative : Bool
  mantissa : Nat
  exponent : Int
  deriving DecidableEq, Repr

inductive Meaning where
  | notANumber
  | infinite (negative : Bool)
  | finite (value : Dyadic)
  deriving DecidableEq, Repr

/-- The leading bit of a mantissa, which is not stored; also the number of stored mantissas. -/
def implicitBit : Nat := 0x10000000000000

def signBit : Nat := 0x8000000000000000

/-- Take the 64 bits of a double apart: sign, eleven exponent bits, 52 fraction bits. -/
def meaningOfBits (bits : Nat) : Meaning :=
  let negative := decide (signBit ≤ bits)
  let biased : Nat := bits / implicitBit % 2048
  let fraction : Nat := bits % implicitBit
  if biased = 2047 then
    if fraction = 0 then .infinite negative else .notANumber
  else if biased = 0 then .finite ⟨negative, fraction, -1074⟩
  else .finite ⟨negative, fraction + implicitBit, (biased : Int) - 1075⟩

def classify (x : Float) : Meaning := meaningOfBits x.toBits.toNat

def infinityBits : Nat := 2047 * implicitBit

/-- The mantissa nearest to `num / den` in units of `2 ^ exponent`. -/
def mantissaAt (num den : Nat) (exponent : Int) : Nat :=
  roundDiv .toEven (num * Nat.pow 2 (-exponent).toNat) (den * Nat.pow 2 exponent.toNat)

def needsFinerUnit (num den : Nat) (exponent : Int) : Bool :=
  decide
    (num * Nat.pow 2 (-exponent).toNat < implicitBit * (den * Nat.pow 2 exponent.toNat))

/-- The exponent of the last mantissa bit for `num / den`: 53 significant bits, but no unit below
the smallest subnormal. -/
def unitExponent (num den : Nat) : Int :=
  let guess := (num.log2 : Int) - (den.log2 : Int) - 52
  if guess ≤ -1074 then -1074
  else if needsFinerUnit num den guess then guess - 1
  else guess

/-- The bits of the double nearest to the quotient `num / den`, infinity beyond the largest one.
Exponent field and mantissa add up, so a mantissa that rounds up to `2 ^ 53` carries by itself. -/
def bitsOf (num den : Nat) : Nat :=
  if num = 0 then 0
  else
    let exponent := unitExponent num den
    let bits := (exponent + 1074).toNat * implicitBit + mantissaAt num den exponent
    if infinityBits ≤ bits then infinityBits else bits

def ofMagnitude (negative : Bool) (bits : Nat) : Float :=
  Float.ofBits (UInt64.ofNat (if negative then signBit + bits else bits))

/-- The double nearest to `± num / den`. -/
def nearest (negative : Bool) (num den : Nat) : Float := ofMagnitude negative (bitsOf num den)

/-- The double nearest to a counter below `2 ^ 64`. -/
def ofCount (n : Nat) : Float := nearest false n 1

end Decimal
end Unslide
