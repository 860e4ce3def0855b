import Unslide.Text.Unprintable

/-!
# Unslide.Text.Quoted

A string as a message shows it: in quotes, with an escape for the quote, the backslash, and every
character that does not show by itself.

* `escapeShown_of_printable`: all other characters stand for themselves.
-/

namespace Unslide
namespace Text

/-- A character by its code point, in hexadecimal digits between braces. -/
def escapeCodePoint (c : Char) : List Char :=
  ['\\', 'u', '{'] ++ Nat.toDigits 16 c.toNat ++ ['}']

/-- A character between the quotes. -/
def escapeShown (c : Char) : List Char :=
  if c = '"' then ['\\', '"']
  else if c = '\\' then ['\\', '\\']
  else if c = '\n' then ['\\', 'n']
  else if c = '\r' then ['\\', 'r']
  else if c = '\t' then ['\\', 't']
  else if c = '\x00' then ['\\', '0']
  else if isUnprintable c then escapeCodePoint c
  else [c]

theorem escapeShown_of_printable {c : Char} (hq : c ≠ '"') (hb : c ≠ '\\')
    (h : isUnprintable c = false) : escapeShown c = [c] := by
  have hn : c ≠ '\n' := by rintro rfl; revert h; decide
  have hr : c ≠ '\r' := by rintro rfl; revert h; decide
  have ht : c ≠ '\t' := by rintro rfl; revert h; decide
  have h0 : c ≠ '\x00' := by rintro rfl; revert h; decide
  simp [escapeShown, hq, hb, hn, hr, ht, h0, h]

def shown (s : String) : String :=
  String.ofList ('"' :: (s.toList.flatMap escapeShown ++ ['"']))

end Text
end Unslide
