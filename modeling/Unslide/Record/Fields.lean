import Unslide.Address
import Unslide.Json.Fault

/-!
# Unslide.Record.Fields

The members of a record, by name in an object or by position in a list. In an object the members are
examined in the order in which they stand there: one of an unknown name is passed over, one that
stands there again is a fault, and so is one of the wrong type. What is missing is looked for last,
in the order of the layout. In a list the order of the layout is that of the elements; elements that
may be missing may be left out at the end.
-/

namespace Unslide
namespace Record

open Json (Value Mismatch)

/-- A member of a record, and whether a value will do for it. -/
structure Field where
  name : String
  accepts : Value → Except Mismatch Unit

/-- A member that is read by `read`. -/
def Field.of {α : Type} (name : String) (read : Value → Except Mismatch α) : Field :=
  ⟨name, fun v => (read v).map fun _ => ()⟩

structure Layout where
  title : String
  fields : List Field

/-- The values of one record. -/
inductive Body where
  | named (members : List (String × Value))
  | listed (items : List Value)

/-- An integer up to `limit`. -/
def integer (limit : Nat) (wanted : String) (v : Value) : Except Mismatch Nat :=
  match v with
  | .natural n => if n ≤ limit then .ok n else .error (.outOfRange v wanted)
  | .negative _ => .error (.outOfRange v wanted)
  | _ => .error (.wrongType v wanted)

def word32 (v : Value) : Except Mismatch Nat := integer topId "u32" v

def word64 (v : Value) : Except Mismatch Nat := integer top "u64" v

def flag (v : Value) : Except Mismatch Bool :=
  match v with
  | .flag b => .ok b
  | _ => .error (.wrongType v "a boolean")

def string (v : Value) : Except Mismatch String :=
  match v with
  | .text s => .ok s
  | _ => .error (.wrongType v "a string")

/-- Values read one after the other, up to the first that will not do. -/
def each {α : Type} (read : Value → Except Mismatch α) : List Value → Except Mismatch (List α)
  | [] => .ok []
  | v :: rest =>
    match read v with
    | .error m => .error m
    | .ok a =>
      match each read rest with
      | .error m => .error m
      | .ok as => .ok (a :: as)

def sequence {α : Type} (read : Value → Except Mismatch α) (v : Value) :
    Except Mismatch (List α) :=
  match v with
  | .array items => each read items
  | _ => .error (.wrongType v "a sequence")

namespace Layout

def field? (l : Layout) (name : String) : Option Field := l.fields.find? (fun f => f.name == name)

def nameAt (l : Layout) (position : Nat) : String :=
  match l.fields[position]? with
  | some f => f.name
  | none => ""

/-- Examine the members of an object in order; `seen` holds the names of fields met before. -/
def examine (l : Layout) : List String → List (String × Value) → Except Mismatch Unit
  | _, [] => .ok ()
  | seen, (name, v) :: rest =>
    match l.field? name with
    | none => l.examine seen rest
    | some f =>
      if seen.contains name then .error (.repeated name)
      else
        match f.accepts v with
        | .error m => .error m
        | .ok _ => l.examine (name :: seen) rest

/-- Examine what can be examined before the fields are read. -/
def checkMembers (l : Layout) : Body → Except Mismatch Unit
  | .named members => l.examine [] members
  | .listed _ => .ok ()

def valueAt? (l : Layout) (position : Nat) : Body → Option Value
  | .named members => members.lookup (l.nameAt position)
  | .listed items => items[position]?

/-- A number of elements in words. -/
def elements (n : Nat) : String := Text.decimal n ++ if n = 1 then " element" else " elements"

/-- The fault of a field that is missing. -/
def absent (l : Layout) (position : Nat) : Body → Mismatch
  | .named _ => .missing (l.nameAt position)
  | .listed _ => .wrongLength position (l.title ++ " with " ++ elements l.fields.length)

def required {α : Type} (l : Layout) (position : Nat) (read : Value → Except Mismatch α)
    (b : Body) : Except Mismatch α :=
  match l.valueAt? position b with
  | some v => read v
  | none => .error (l.absent position b)

/-- Read the field at a position, or take `default` for it if it is missing. -/
def optional {α : Type} (l : Layout) (position : Nat) (read : Value → Except Mismatch α)
    (default : α) (b : Body) : Except Mismatch α :=
  match l.valueAt? position b with
  | some v => read v
  | none => .ok default

/-- Examine what is left when the fields were read: a list may have no more elements than fields. -/
def checkLength (l : Layout) : Body → Except Mismatch Unit
  | .named _ => .ok ()
  | .listed items =>
    if l.fields.length < items.length then
      .error (.wrongLength items.length (elements l.fields.length ++ " in sequence"))
    else .ok ()

end Layout
end Record
end Unslide
