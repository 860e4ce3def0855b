/-!
# Unslide.Text.Numeral

Natural numbers as text: plain decimal numerals, and lower-case hexadecimal numerals behind `0x`.
-/

namespace Unslide
namespace Text

def decimal (n : Nat) : String := String.ofList (Nat.toDigits 10 n)

def hexDigits (n : Nat) : String := String.ofList (Nat.toDigits 16 n)

/-- Lower-case hexadecimal numeral behind `0x`, as addresses and sizes are written. -/
def hex (n : Nat) : String := "0x" ++ hexDigits n

end Text
end Unslide
