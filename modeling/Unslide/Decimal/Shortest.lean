import Unslide.Decimal.Binary64
import Unslide.Text.Numeral

/-!
# Unslide.Decimal.Shortest

The shortest decimal that reads back as a given double. Around each double lies the interval of the
reals that round to it; its ends belong to it if the mantissa is even. The search goes through the
grids `digits · 10 ^ exponent` from coarse to fine and takes the first grid that has a point in the
interval, of two such points the nearer one. A grid with a point in the interval has one next to
the double itself, so only the two neighbours on the grid are tried.

Two styles of writing such a decimal are used: `Style.plain` for settings, `Style.tagged` where a
number has to be told apart from a whole number.
-/

namespace Unslide
namespace Decimal

/-- The decimal `digits · 10 ^ exponent`. -/
structure Scaled where
  digits : Nat
  exponent : Int
  deriving DecidableEq, Repr

/-- The interval of reals that round to a double, in units of `2 ^ unit`: four units are one step
of the mantissa. -/
structure Basin where
  low : Nat
  middle : Nat
  high : Nat
  unit : Int
  closed : Bool

/-- The interval of a positive double. Below a power of two the neighbours stand twice as close. -/
def Dyadic.basin (d : Dyadic) : Basin where
  low :=
    if d.mantissa = implicitBit ∧ -1074 < d.exponent then 4 * d.mantissa - 1
    else 4 * d.mantissa - 2
  middle := 4 * d.mantissa
  high := 4 * d.mantissa + 2
  unit := d.exponent - 2
  closed := d.mantissa % 2 = 0

/-- Factors that turn basin units into steps of `10 ^ exponent`: multiply by the first, divide by
the second. -/
def Basin.scale (b : Basin) (exponent : Int) : Nat × Nat :=
  (Nat.pow 2 b.unit.toNat * Nat.pow 10 (-exponent).toNat,
    Nat.pow 2 (-b.unit).toNat * Nat.pow 10 exponent.toNat)

/-- The point of the grid of `10 ^ exponent` in the interval that is nearest to its middle. -/
def Basin.point? (b : Basin) (tie : Tie) (exponent : Int) : Option Nat :=
  let (up, down) := b.scale exponent
  let inside (n : Nat) : Bool :=
    if b.closed then decide (b.low * up ≤ n * down ∧ n * down ≤ b.high * up)
    else decide (b.low * up < n * down ∧ n * down < b.high * up)
  let under := b.middle * up / down
  match inside under, inside (under + 1) with
  | false, false => none
  | true, false => some under
  | false, true => some (under + 1)
  | true, true => some (roundDiv tie (b.middle * up) down)

/-- Try `fuel` grids, from `10 ^ exponent` downwards. -/
def Basin.search (b : Basin) (tie : Tie) : Nat → Int → Scaled
  | 0, exponent => ⟨0, exponent⟩
  | fuel + 1, exponent =>
    match b.point? tie exponent with
    | some digits => ⟨digits, exponent⟩
    | none => b.search tie fuel (exponent - 1)

/-- The shortest decimal that reads back as a positive double. The first grid lies above the
double; seventeen digits always suffice, so the search ends within twenty-four grids. -/
def Dyadic.shortest (d : Dyadic) (tie : Tie) : Scaled :=
  let b := d.basin
  b.search tie 24 (((b.high.log2 : Int) + 1 + b.unit) * 30103 / 100000 + 2)

structure Style where
  tie : Tie
  /-- A whole number keeps a point and a zero. -/
  keepsPoint : Bool
  /-- Bounds between which the number of places before the point has to lie for the number to be
  written without an exponent; without bounds there never is an exponent. -/
  positional : Option (Int × Int)

def Style.plain : Style := ⟨.up, false, none⟩

/-- Numbers that are not integers keep their point, and take an exponent from `10 ^ 16` upwards and
below `10 ^ -5`. -/
def Style.tagged : Style := ⟨.toEven, true, some (-4, 16)⟩

/-- Whether a number with `point` places before the point is written without an exponent. -/
def Style.isPositional (style : Style) (point : Int) : Bool :=
  match style.positional with
  | none => true
  | some (least, greatest) => decide (least ≤ point ∧ point ≤ greatest)

/-- Digits with the point after `point` of them. -/
def positionalText (keepsPoint : Bool) (digits : List Char) (point : Int) : String :=
  if (digits.length : Int) ≤ point then
    String.ofList (digits ++ List.replicate (point.toNat - digits.length) '0') ++
      if keepsPoint then ".0" else ""
  else if 0 < point then
    String.ofList (digits.take point.toNat ++ '.' :: digits.drop point.toNat)
  else "0." ++ String.ofList (List.replicate (-point).toNat '0' ++ digits)

/-- Digits with the point after the first one, and the power of ten. -/
def exponentText (digits : List Char) (power : Int) : String :=
  String.ofList (digits.take 1) ++
    (if digits.length ≤ 1 then "" else "." ++ String.ofList (digits.drop 1)) ++
    (if power < 0 then "e-" else "e+") ++ Text.decimal power.natAbs

def Style.write (style : Style) (x : Float) : String :=
  match classify x with
  | .notANumber => "NaN"
  | .infinite negative => if negative then "-inf" else "inf"
  | .finite d =>
    let sign := if d.negative then "-" else ""
    if d.mantissa = 0 then sign ++ if style.keepsPoint then "0.0" else "0"
    else
      let s := d.shortest style.tie
      let digits := Nat.toDigits 10 s.digits
      let point := (digits.length : Int) + s.exponent
      sign ++
        if style.isPositional point then positionalText style.keepsPoint digits point
        else exponentText digits (point - 1)

end Decimal
end Unslide
