import Unslide.Json.Fault

/-!
# Unslide.Json.Text

Strings in JSON text. Characters below the blank have to be escaped; an escape by code number has
four hexadecimal digits, and two of them are needed, in the right order, for a character beyond
`U+FFFF`.
-/

namespace Unslide
namespace Json

def hexValue? (c : Char) : Option Nat :=
  if c.isDigit then some (c.toNat - '0'.toNat)
  else if 'a' ≤ c ∧ c ≤ 'f' then some (c.toNat - 'a'.toNat + 10)
  else if 'A' ≤ c ∧ c ≤ 'F' then some (c.toNat - 'A'.toNat + 10)
  else none

def hexValues? (a b c d : Char) : Option Nat :=
  match hexValue? a, hexValue? b, hexValue? c, hexValue? d with
  | some a, some b, some c, some d => some (((a * 16 + b) * 16 + c) * 16 + d)
  | _, _, _, _ => none

/-- The fault of a code number, seen behind its four bytes. -/
def badDigits (text : List Char) : Fault := ⟨.badEscape, some (byteLength text - 4)⟩

def fourDigits (text : List Char) : Scan Nat :=
  if byteLength (text.take 4) < 4 then .error (.here [] (.unfinished .text))
  else
    match text with
    | a :: b :: c :: d :: rest =>
      match hexValues? a b c d with
      | some n => .ok (n, rest)
      | none => .error (badDigits text)
    | _ => .error (badDigits text)

/-- The second half of a surrogate pair, behind the first half `high`. -/
def lowSurrogate (high : Nat) (text : List Char) : Scan Char :=
  match text with
  | [] => .error (.here [] (.unfinished .text))
  | '\\' :: rest =>
    match rest with
    | [] => .error (.here [] (.unfinished .text))
    | 'u' :: digits =>
      match fourDigits digits with
      | .error f => .error f
      | .ok (low, behind) =>
        if low < 0xdc00 ∨ 0xdfff < low then .error (.here behind .loneSurrogate)
        else .ok (Char.ofNat (0x10000 + (high - 0xd800) * 0x400 + (low - 0xdc00)), behind)
    | _ => .error (.ahead rest .pairBroken)
  | _ => .error (.ahead text .pairBroken)

/-- A character given by its code number; `text` follows the letter `u`. -/
def codeNumber (text : List Char) : Scan Char :=
  match fourDigits text with
  | .error f => .error f
  | .ok (n, rest) =>
    if n < 0xd800 ∨ 0xdfff < n then .ok (Char.ofNat n, rest)
    else if n < 0xdc00 then lowSurrogate n rest
    else .error (.here rest .loneSurrogate)

/-- The character that a single letter stands for behind a backslash. -/
def letterEscape? (c : Char) : Option Char :=
  match c with
  | '"' => some '"'
  | '\\' => some '\\'
  | '/' => some '/'
  | 'b' => some '\x08'
  | 'f' => some '\x0c'
  | 'n' => some '\n'
  | 'r' => some '\r'
  | 't' => some '\t'
  | _ => none

/-- An escaped character; `text` follows the backslash. -/
def escaped (text : List Char) : Scan Char :=
  match text with
  | [] => .error (.here [] (.unfinished .text))
  | c :: rest =>
    if c = 'u' then codeNumber rest
    else
      match letterEscape? c with
      | some d => .ok (d, rest)
      | none => .error (.ahead (c :: rest) .badEscape)

/-- The characters of a string up to its closing quote, behind those in `done`, last one first. Each
step takes a character of the text and one of `budget`. -/
def textFrom : List Char → List Char → List Char → Scan String
  | _, _, [] => .error (.here [] (.unfinished .text))
  | [], _, c :: rest => .error (.here (c :: rest) (.unfinished .text))
  | _ :: budget, done, c :: rest =>
    if c = '"' then .ok (String.ofList done.reverse, rest)
    else if c = '\\' then
      match escaped rest with
      | .error f => .error f
      | .ok (d, behind) => textFrom budget (d :: done) behind
    else if c.toNat < 32 then .error (.here rest .controlCharacter)
    else textFrom budget (c :: done) rest

/-- A string behind its opening quote. The text itself is budget enough. -/
def text (cs : List Char) : Scan String := textFrom cs [] cs

end Json
end Unslide
