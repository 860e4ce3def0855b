import Unslide.Address
import Unslide.Decimal.Reader
import Unslide.Json.Fault

/-!
# Unslide.Json.Number

Numbers in JSON text. An integer that fits into 64 bits is kept exactly. Any other number becomes a
double: its digits are collected as long as they fit into 64 bits, the rest only counts for the
power of ten, and digits and power are then joined in double precision. So the double is not always
the nearest one. A number beyond the largest double is a fault.
-/

namespace Unslide
namespace Json

open Decimal (digitValue nearest ofMagnitude)

/-- Collect digits as long as the significand fits into 64 bits. Gives the significand, the number
of digits collected and the rest. -/
def gather (significand count : Nat) : List Char → Nat × Nat × List Char
  | [] => (significand, count, [])
  | c :: rest =>
    if c.isDigit ∧ significand * 10 + digitValue c ≤ top then
      gather (significand * 10 + digitValue c) (count + 1) rest
    else (significand, count, c :: rest)

def startsWithDigit : List Char → Bool
  | [] => false
  | c :: _ => c.isDigit

/-- The greatest power of ten that is multiplied at once. -/
def stepPower : Nat := 308

def powerOfTen (n : Nat) : Float := nearest false (Nat.pow 10 n) 1

/-- Multiply a double by a power of ten; nothing beyond the largest double. -/
def timesPower? (x : Float) (exponent : Int) : Option Float :=
  if exponent.natAbs ≤ stepPower then
    if 0 ≤ exponent then
      let y := x * powerOfTen exponent.toNat
      if y.isInf then none else some y
    else some (x / powerOfTen exponent.natAbs)
  else if x == 0 then some x
  else if 0 ≤ exponent then none
  else timesPower? (x / powerOfTen stepPower) (exponent + stepPower)
termination_by exponent.natAbs
decreasing_by
  simp only [stepPower] at *
  omega

/-- The value of `± significand · 10 ^ exponent` in front of `rest`. -/
def realFrom (negative : Bool) (significand : Nat) (exponent : Int) (rest : List Char) :
    Scan Value :=
  match timesPower? (nearest false significand 1) exponent with
  | none => .error (.here rest .numberTooLarge)
  | some x => .ok (.real (if negative then -x else x), rest)

def topExponent : Nat := 0x7fffffff

/-- Collect the digits of an exponent. Gives the exponent, or nothing as soon as it is too large,
and the rest. -/
def exponentDigits (value : Nat) : List Char → Option Nat × List Char
  | [] => (some value, [])
  | c :: rest =>
    if c.isDigit then
      if topExponent < value * 10 + digitValue c then (none, rest)
      else exponentDigits (value * 10 + digitValue c) rest
    else (some value, c :: rest)

/-- A number from the letter of its exponent on; `text` follows the letter. -/
def exponentPart (negative : Bool) (significand : Nat) (exponent : Int) (text : List Char) :
    Scan Value :=
  let (down, digits) :=
    match text with
    | '-' :: rest => (true, rest)
    | '+' :: rest => (false, rest)
    | _ => (false, text)
  match digits with
  | [] => .error (.here [] (.unfinished .value))
  | c :: rest =>
    if c.isDigit then
      match exponentDigits (digitValue c) rest with
      | (some power, behind) =>
        realFrom negative significand (if down then exponent - power else exponent + power) behind
      | (none, behind) =>
        if significand ≠ 0 ∧ down = false then .error (.here behind .numberTooLarge)
        else .ok (.real (ofMagnitude negative 0), behind.dropWhile Char.isDigit)
    else .error (.ahead (c :: rest) .badNumber)

/-- A number from the place on where an exponent can follow. -/
def realTail (negative : Bool) (significand : Nat) (exponent : Int) (text : List Char) :
    Scan Value :=
  match text with
  | [] => realFrom negative significand exponent []
  | c :: rest =>
    if c = 'e' ∨ c = 'E' then exponentPart negative significand exponent rest
    else realFrom negative significand exponent (c :: rest)

/-- A number from its point on; `text` follows the point. -/
def fractionPart (negative : Bool) (significand : Nat) (exponent : Int) (text : List Char) :
    Scan Value :=
  let (longer, count, behind) := gather significand 0 text
  if startsWithDigit behind then
    realTail negative longer (exponent - count) (behind.dropWhile Char.isDigit)
  else if count = 0 then
    .error (.ahead behind (if behind.isEmpty then .unfinished .value else .badNumber))
  else realTail negative longer (exponent - count) behind

def topNegative : Nat := 0x8000000000000000

/-- An integer without its sign. -/
def integer (negative : Bool) (n : Nat) : Value :=
  if negative then
    if n = 0 ∨ topNegative < n then .real (-(nearest false n 1)) else .negative n
  else .natural n

/-- A number behind the digits in front of its point. -/
def numberTail (negative : Bool) (significand : Nat) (text : List Char) : Scan Value :=
  match text with
  | [] => .ok (integer negative significand, [])
  | c :: rest =>
    if c = '.' then fractionPart negative significand 0 rest
    else if c = 'e' ∨ c = 'E' then exponentPart negative significand 0 rest
    else .ok (integer negative significand, c :: rest)

/-- A number whose digits do not fit into 64 bits; `text` starts with the first digit too many. -/
def longTail (negative : Bool) (significand : Nat) (text : List Char) : Scan Value :=
  let dropped := (text.takeWhile Char.isDigit).length
  match text.dropWhile Char.isDigit with
  | '.' :: rest => fractionPart negative significand dropped rest
  | behind => realTail negative significand dropped behind

def unsignedNumber (negative : Bool) (text : List Char) : Scan Value :=
  match text with
  | [] => .error (.here [] (.unfinished .value))
  | c :: rest =>
    if c = '0' then
      if startsWithDigit rest then .error (.ahead rest .badNumber) else numberTail negative 0 rest
    else if c.isDigit then
      let (significand, _, behind) := gather (digitValue c) 1 rest
      if startsWithDigit behind then longTail negative significand behind
      else numberTail negative significand behind
    else .error (.ahead (c :: rest) .badNumber)

end Json
end Unslide
