import Unslide.Json.Number
import Unslide.Json.Text

/-!
# Unslide.Json.Reader

Reading JSON values from text. Lists and objects are nested at most `nesting - 1` deep.

Reading goes from left to right and stops at the first fault. `nextItem` and `nextKey` step from one
element or member to the next; they are also used where a record is read member by member.

* `skipSpace_of_not_space`: nothing is skipped in front of a visible character.
-/

namespace Unslide
namespace Json

/-- The space that may stand between the parts of a text. -/
def isSpace (c : Char) : Bool := c == ' ' || c == '\t' || c == '\n' || c == '\r'

def skipSpace (text : List Char) : List Char := text.dropWhile isSpace

theorem skipSpace_of_not_space {c : Char} {rest : List Char} (h : isSpace c = false) :
    skipSpace (c :: rest) = c :: rest := by
  simp [skipSpace, h]

/-- The rest of a word of which the first letter was read. -/
def restOfWord : List Char → List Char → Except Fault (List Char)
  | [], text => .ok text
  | _ :: _, [] => .error (.here [] (.unfinished .value))
  | e :: expected, c :: rest =>
    if c = e then restOfWord expected rest else .error (.ahead (c :: rest) .wordMisspelt)

def word (expected : List Char) (v : Value) (text : List Char) : Scan Value :=
  match restOfWord expected text with
  | .error f => .error f
  | .ok rest => .ok (v, rest)

/-- A value that is neither a list nor an object; `text` is not empty and starts with no space. -/
def scalar (text : List Char) : Scan Value :=
  match text with
  | [] => .error (.ahead [] (.unfinished .value))
  | c :: rest =>
    if c = 'n' then word ['u', 'l', 'l'] .null rest
    else if c = 't' then word ['r', 'u', 'e'] (.flag true) rest
    else if c = 'f' then word ['a', 'l', 's', 'e'] (.flag false) rest
    else if c = '-' then unsignedNumber true rest
    else if c.isDigit then unsignedNumber false (c :: rest)
    else if c = '"' then
      match Json.text rest with
      | .error f => .error f
      | .ok (s, behind) => .ok (.text s, behind)
    else .error (.ahead (c :: rest) .valueMissing)

/-- Go on in a list: to its next element, or behind its end. -/
def nextItem (first : Bool) (text : List Char) : Scan Bool :=
  match skipSpace text with
  | [] => .error (.ahead [] (.unfinished .list))
  | c :: rest =>
    if c = ']' then .ok (false, rest)
    else if first then .ok (true, c :: rest)
    else if c = ',' then
      match skipSpace rest with
      | [] => .error (.ahead [] (.unfinished .value))
      | d :: more =>
        if d = ']' then .error (.ahead (d :: more) .commaTrailing) else .ok (true, d :: more)
    else .error (.ahead (c :: rest) .listCommaMissing)

def key (text : List Char) : Scan String :=
  match text with
  | [] => .error (.ahead [] (.unfinished .value))
  | c :: rest =>
    if c = '"' then Json.text rest
    else if c = '}' then .error (.ahead (c :: rest) .commaTrailing)
    else .error (.ahead (c :: rest) .keyNotText)

/-- Go on in an object: behind its next key, or behind its end. -/
def nextKey (first : Bool) (text : List Char) : Scan (Option String) :=
  let found (rest : List Char) : Scan (Option String) :=
    match key rest with
    | .error f => .error f
    | .ok (name, behind) => .ok (some name, behind)
  match skipSpace text with
  | [] => .error (.ahead [] (.unfinished .object))
  | c :: rest =>
    if c = '}' then .ok (none, rest)
    else if first then found (c :: rest)
    else if c = ',' then found (skipSpace rest)
    else .error (.ahead (c :: rest) .objectCommaMissing)

def colon (text : List Char) : Except Fault (List Char) :=
  match skipSpace text with
  | [] => .error (.ahead [] (.unfinished .object))
  | c :: rest => if c = ':' then .ok rest else .error (.ahead (c :: rest) .colonMissing)

/-- Lists and objects may be nested less than this deep. -/
def nesting : Nat := 128

mutual

/-- A value inside lists and objects that leave `depth` for it. -/
def valueWith : Nat → Nat → List Char → Scan Value
  | 0, _, text => .error (.here text (.unfinished .value))
  | fuel + 1, depth, text =>
    match skipSpace text with
    | [] => .error (.ahead [] (.unfinished .value))
    | c :: rest =>
      if c = '[' then
        if depth ≤ 1 then .error (.ahead (c :: rest) .tooDeep)
        else
          match itemsWith fuel (depth - 1) true rest with
          | .error f => .error f
          | .ok (items, behind) => .ok (.array items, behind)
      else if c = '{' then
        if depth ≤ 1 then .error (.ahead (c :: rest) .tooDeep)
        else
          match membersWith fuel (depth - 1) true rest with
          | .error f => .error f
          | .ok (members, behind) => .ok (.object members, behind)
      else scalar (c :: rest)

/-- The elements of a list up to its end. -/
def itemsWith : Nat → Nat → Bool → List Char → Scan (List Value)
  | 0, _, _, text => .error (.here text (.unfinished .list))
  | fuel + 1, depth, first, text =>
    match nextItem first text with
    | .error f => .error f
    | .ok (false, behind) => .ok ([], behind)
    | .ok (true, rest) =>
      match valueWith fuel depth rest with
      | .error f => .error f
      | .ok (v, more) =>
        match itemsWith fuel depth false more with
        | .error f => .error f
        | .ok (items, behind) => .ok (v :: items, behind)

/-- The members of an object up to its end. -/
def membersWith : Nat → Nat → Bool → List Char → Scan (List (String × Value))
  | 0, _, _, text => .error (.here text (.unfinished .object))
  | fuel + 1, depth, first, text =>
    match nextKey first text with
    | .error f => .error f
    | .ok (none, behind) => .ok ([], behind)
    | .ok (some name, rest) =>
      match colon rest with
      | .error f => .error f
      | .ok start =>
        match valueWith fuel depth start with
        | .error f => .error f
        | .ok (v, more) =>
          match membersWith fuel depth false more with
          | .error f => .error f
          | .ok (members, behind) => .ok ((name, v) :: members, behind)

end

/-- Steps that suffice for a text: reading a value or an element takes at least one character in
every two steps. -/
def stepsFor (text : List Char) : Nat := 2 * text.length + 4

/-- A value inside one list or object. -/
def value (text : List Char) : Scan Value := valueWith (stepsFor text) (nesting - 1) text

/-- The elements of an outermost list from the next one on. -/
def items (first : Bool) (text : List Char) : Scan (List Value) :=
  itemsWith (stepsFor text) (nesting - 1) first text

end Json
end Unslide
