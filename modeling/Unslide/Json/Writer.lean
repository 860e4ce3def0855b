import Unslide.Text.Numeral

/-!
# Unslide.Json.Writer

Compact JSON text, put together from the texts of its parts. Objects keep the order of their
members. In strings only the quote, the backslash and the control characters below the blank are
escaped.

* `escape_of_plain`: every other character stands for itself.
-/

namespace Unslide
namespace Json

/-- A control character as `\u` and four hexadecimal digits. -/
def escapeCode (c : Char) : List Char :=
  let digits := Nat.toDigits 16 c.toNat
  '\\' :: 'u' :: (List.replicate (4 - digits.length) '0' ++ digits)

/-- A character between the quotes of a string. -/
def escape (c : Char) : List Char :=
  if c = '"' then ['\\', '"']
  else if c = '\\' then ['\\', '\\']
  else if c = '\x08' then ['\\', 'b']
  else if c = '\x0c' then ['\\', 'f']
  else if c = '\n' then ['\\', 'n']
  else if c = '\r' then ['\\', 'r']
  else if c = '\t' then ['\\', 't']
  else if c.toNat < 32 then escapeCode c
  else [c]

theorem escape_of_plain {c : Char} (hq : c ≠ '"') (hb : c ≠ '\\') (h : 32 ≤ c.toNat) :
    escape c = [c] := by
  have h8 : c ≠ '\x08' := by rintro rfl; revert h; decide
  have hc : c ≠ '\x0c' := by rintro rfl; revert h; decide
  have hn : c ≠ '\n' := by rintro rfl; revert h; decide
  have hr : c ≠ '\r' := by rintro rfl; revert h; decide
  have ht : c ≠ '\t' := by rintro rfl; revert h; decide
  simp [escape, hq, hb, h8, hc, hn, hr, ht, Nat.not_lt.2 h]

def quoted (s : String) : List Char := '"' :: (s.toList.flatMap escape ++ ['"'])

def number (n : Nat) : List Char := Nat.toDigits 10 n

def flag (b : Bool) : List Char :=
  if b then ['t', 'r', 'u', 'e'] else ['f', 'a', 'l', 's', 'e']

def null : List Char := ['n', 'u', 'l', 'l']

/-- Texts with commas between them. -/
def separated : List (List Char) → List Char
  | [] => []
  | [text] => text
  | text :: rest => text ++ ',' :: separated rest

def array (items : List (List Char)) : List Char := '[' :: (separated items ++ [']'])

def member (name : String) (value : List Char) : List Char := quoted name ++ ':' :: value

def object (members : List (String × List Char)) : List Char :=
  '{' :: (separated (members.map fun m => member m.1 m.2) ++ ['}'])

end Json
end Unslide
