import Unslide.Decimal.Shortest
import Unslide.Text.Numeral
import Unslide.Text.Quoted

/-!
# Unslide.Json.Fault

The values of JSON text, and what can be wrong with a text or with a value that is not what was
asked for. A fault in the text has a place: the number of bytes of the line behind it.
-/

namespace Unslide
namespace Json

/-- A value. Integers that fit into 64 bits are kept exactly, all other numbers as doubles. -/
inductive Value where
  | null
  | flag (b : Bool)
  | natural (n : Nat)
  /-- The number `-n`, with `n` not zero. -/
  | negative (n : Nat)
  | real (x : Float)
  | text (s : String)
  | array (items : List Value)
  | object (members : List (String × Value))

def Value.describe : Value → String
  | .null => "null"
  | .flag b => "boolean `" ++ (if b then "true" else "false") ++ "`"
  | .natural n => "integer `" ++ Text.decimal n ++ "`"
  | .negative n => "integer `-" ++ Text.decimal n ++ "`"
  | .real x => "floating point `" ++ Decimal.Style.tagged.write x ++ "`"
  | .text s => "string " ++ Text.shown s
  | .array _ => "sequence"
  | .object _ => "map"

/-- How a value fails to be what was asked for. -/
inductive Mismatch where
  /-- It is of another type. -/
  | wrongType (found : Value) (wanted : String)
  /-- It is an integer outside the range. -/
  | outOfRange (found : Value) (wanted : String)
  /-- It has another number of elements. -/
  | wrongLength (length : Nat) (wanted : String)
  /-- It is none of the known names. -/
  | unknownName (found : String) (known : List String)
  | repeated (name : String)
  | missing (name : String)

def ticked (name : String) : String := "`" ++ name ++ "`"

def Mismatch.message : Mismatch → String
  | .wrongType found wanted => "invalid type: " ++ found.describe ++ ", expected " ++ wanted
  | .outOfRange found wanted => "invalid value: " ++ found.describe ++ ", expected " ++ wanted
  | .wrongLength length wanted =>
    "invalid length " ++ Text.decimal length ++ ", expected " ++ wanted
  | .unknownName found known =>
    "unknown variant " ++ ticked found ++ ", expected one of " ++
      String.intercalate ", " (known.map ticked)
  | .repeated name => "duplicate field " ++ ticked name
  | .missing name => "missing field " ++ ticked name

/-- What was being read when the text ended. -/
inductive Part where
  | list
  | object
  | text
  | value
  deriving DecidableEq, Repr

def Part.word : Part → String
  | .list => "a list"
  | .object => "an object"
  | .text => "a string"
  | .value => "a value"

inductive Cause where
  | unfinished (part : Part)
  | colonMissing
  | listCommaMissing
  | objectCommaMissing
  | wordMisspelt
  | valueMissing
  | badEscape
  | badNumber
  | numberTooLarge
  | controlCharacter
  | keyNotText
  /-- Half of a surrogate pair stands alone. -/
  | loneSurrogate
  /-- The second half of a surrogate pair does not follow. -/
  | pairBroken
  | commaTrailing
  | textTrailing
  | tooDeep
  /-- The text is sound, but its value is not what was asked for. -/
  | mismatch (m : Mismatch)

/-- The kinds of causes. -/
inductive Category where
  | ending
  | form
  /-- The text is JSON, but not what was asked for. -/
  | data
  deriving DecidableEq, Repr

namespace Cause

def category : Cause → Category
  | .unfinished _ => .ending
  | .mismatch _ => .data
  | _ => .form

def message : Cause → String
  | .unfinished part => "EOF while parsing " ++ part.word
  | .colonMissing => "expected `:`"
  | .listCommaMissing => "expected `,` or `]`"
  | .objectCommaMissing => "expected `,` or `\x7d`"
  | .wordMisspelt => "expected ident"
  | .valueMissing => "expected value"
  | .badEscape => "invalid escape"
  | .badNumber => "invalid number"
  | .numberTooLarge => "number out of range"
  | .controlCharacter => "control character (\\u0000-\\u001F) found while parsing a string"
  | .keyNotText => "key must be a string"
  | .loneSurrogate => "lone leading surrogate in hex escape"
  | .pairBroken => "unexpected end of hex escape"
  | .commaTrailing => "trailing comma"
  | .textTrailing => "trailing characters"
  | .tooDeep => "recursion limit exceeded"
  | .mismatch m => m.message

end Cause

/-- A cause, and the number of bytes behind its place if it has one. -/
structure Fault where
  cause : Cause
  behind : Option Nat

/-- The length of a text in bytes. -/
def byteLength : List Char → Nat
  | [] => 0
  | c :: rest => c.utf8Size + byteLength rest

namespace Fault

/-- A fault seen when the rest of the text was `rest`. -/
def here (rest : List Char) (cause : Cause) : Fault := ⟨cause, some (byteLength rest)⟩

/-- A fault at the first byte of `rest`, or at the end of the text. -/
def ahead (rest : List Char) (cause : Cause) : Fault := ⟨cause, some (byteLength rest - 1)⟩

/-- A fault without a place. -/
def placeless (m : Mismatch) : Fault := ⟨.mismatch m, none⟩

end Fault

/-- What reading a part of a text gives: its value and the rest of the text, or a fault. -/
abbrev Scan (α : Type) := Except Fault (α × List Char)

end Json
end Unslide
