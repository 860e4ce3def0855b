import Unslide.Record.Writer
import Unslide.Text.Blank

/-!
# Unslide.Capture

A capture as text: one record in each line. Lines end at line feeds; a carriage return in front of a
line feed belongs to it; the last line may lack its line feed. Lines of white space are passed over.
Reading stops at the first line that is no text or no record; lines are counted from one, and those
passed over are counted too.

* `linesOf_nil`: a capture without bytes has no lines.
-/

namespace Unslide
namespace Capture

inductive Fault where
  | notText
  /-- A line is no record; the column is that of the fault in the line. -/
  | badLine (line : Nat) (cause : Json.Cause) (column : Option Nat)

namespace Fault

def located (cause : Json.Cause) (column : Option Nat) : String :=
  match column with
  | none => cause.message
  | some c => cause.message ++ " at line 1 column " ++ Text.decimal c

def message : Fault → String
  | .notText => "stream did not contain valid UTF-8"
  | .badLine line cause column =>
    "Failed to parse event on line " ++ Text.decimal line ++ ": " ++ located cause column

/-- The fault in words, and its cause behind it. -/
def chain : Fault → String
  | .notText => Fault.notText.message
  | .badLine line cause column =>
    (Fault.badLine line cause column).message ++ ": " ++ located cause column

end Fault

def lineFeed : UInt8 := 10

def carriageReturn : UInt8 := 13

/-- The line whose bytes, last one first, are `done`, when its line feed was met. -/
def endedLine : List UInt8 → List UInt8
  | [] => []
  | b :: rest => if b = carriageReturn then rest.reverse else (b :: rest).reverse

/-- The lines of a capture, the first one behind the bytes in `done`, last one first. -/
def linesFrom : List UInt8 → List UInt8 → List (List UInt8)
  | [], [] => []
  | b :: done, [] => [(b :: done).reverse]
  | done, b :: rest =>
    if b = lineFeed then endedLine done :: linesFrom [] rest else linesFrom (b :: done) rest

def linesOf (bytes : List UInt8) : List (List UInt8) := linesFrom [] bytes

theorem linesOf_nil : linesOf [] = [] := rfl

/-- The record in a line, if it is not passed over; `line` is its number. -/
def readLine (line : Nat) (bytes : List UInt8) : Except Fault (Option Event) :=
  match String.fromUTF8? ⟨bytes.toArray⟩ with
  | none => .error .notText
  | some text =>
    if Text.isBlankLine text then .ok none
    else
      match Record.read text.toList with
      | .ok e => .ok (some e)
      | .error f =>
        .error (.badLine line f.cause (f.behind.map fun n => bytes.length - n))

def readLines (line : Nat) : List (List UInt8) → Except Fault (List Event)
  | [] => .ok []
  | bytes :: rest =>
    match readLine line bytes with
    | .error f => .error f
    | .ok found =>
      match readLines (line + 1) rest with
      | .error f => .error f
      | .ok events => .ok (found.toList ++ events)

def read (bytes : List UInt8) : Except Fault (List Event) := readLines 1 (linesOf bytes)

def text (events : List Event) : String :=
  String.ofList (events.flatMap fun e => Record.written e ++ ['\n'])

end Capture
end Unslide
