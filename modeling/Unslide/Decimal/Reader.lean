import Unslide.Decimal.Binary64

/-!
# Unslide.Decimal.Reader

Reading decimals as settings give them. A real number is an optional sign, digits with an optional
point among or around them, and an optional exponent; or one of the words `inf`, `infinity` and
`nan` in any case. It is rounded once, to the nearest double. A count is an optional plus sign and
digits.
-/

namespace Unslide
namespace Decimal

def digitValue (c : Char) : Nat := c.toNat - '0'.toNat

def digitsValue (cs : List Char) : Nat := cs.foldl (fun n c => 10 * n + digitValue c) 0

/-- A count: digits behind an optional plus sign, at most `limit`. -/
def count? (limit : Nat) (text : List Char) : Option Nat :=
  let digits :=
    match text with
    | '+' :: rest => rest
    | _ => text
  if digits.isEmpty || !digits.all Char.isDigit then none
  else
    let n := digitsValue digits
    if n ≤ limit then some n else none

/-- An exponent behind its letter: an optional sign and at least one digit. -/
def exponent? (text : List Char) : Option Int :=
  let (negative, digits) :=
    match text with
    | '-' :: rest => (true, rest)
    | '+' :: rest => (false, rest)
    | _ => (false, text)
  if digits.isEmpty || !digits.all Char.isDigit then none
  else
    let n : Int := digitsValue digits
    some (if negative then -n else n)

/-- What follows the digits: nothing, or an exponent. -/
def tailExponent? : List Char → Option Int
  | [] => some 0
  | c :: rest => if c = 'e' ∨ c = 'E' then exponent? rest else none

/-- The double nearest to `± digits · 10 ^ exponent`. Far outside the range of doubles the powers
are not computed. -/
def scaled (negative : Bool) (digits : Nat) (exponent : Int) : Float :=
  let leading := (Nat.toDigits 10 digits).length + exponent
  if digits = 0 ∨ leading < -400 then ofMagnitude negative 0
  else if 400 < leading then ofMagnitude negative infinityBits
  else nearest negative (digits * Nat.pow 10 exponent.toNat) (Nat.pow 10 (-exponent).toNat)

def unsigned? (negative : Bool) (text : List Char) : Option Float :=
  let whole := text.takeWhile Char.isDigit
  let behind := text.dropWhile Char.isDigit
  let (fraction, rest) :=
    match behind with
    | '.' :: more => (more.takeWhile Char.isDigit, more.dropWhile Char.isDigit)
    | _ => ([], behind)
  let digits := whole ++ fraction
  if digits.isEmpty then none
  else
    match tailExponent? rest with
    | none => none
    | some exponent => some (scaled negative (digitsValue digits) (exponent - fraction.length))

/-- The words for what is no finite number, in any case. -/
def word? (negative : Bool) (text : List Char) : Option Float :=
  let word := text.map Char.toLower
  if word = ['n', 'a', 'n'] then some (0 / 0)
  else if word = ['i', 'n', 'f'] ∨ word = ['i', 'n', 'f', 'i', 'n', 'i', 't', 'y'] then
    some (ofMagnitude negative infinityBits)
  else none

/-- A real number as a setting gives it. -/
def real? (text : List Char) : Option Float :=
  let (negative, body) :=
    match text with
    | '-' :: rest => (true, rest)
    | '+' :: rest => (false, rest)
    | _ => (false, text)
  match unsigned? negative body with
  | some x => some x
  | none => word? negative body

end Decimal
end Unslide
