import Unslide.Decimal.Reader
import Unslide.Session.Basic

/-!
# Unslide.Arguments

The command line. Options are given by a long name behind two dashes or by a letter behind one;
letters may be joined. A value stands behind an equals sign, or is the next argument; behind a
letter it may also follow at once. Arguments are taken from left to right, and the first fault
counts. A value in an argument of its own is looked at when the next known option is met, or at the
end.
-/

namespace Unslide

/-- What the command line asks for. -/
structure Arguments where
  input : Option String
  output : Option String
  resolved : Option String
  quiet : Bool
  remap : Bool
  threshold : Float
  /-- Page size, or that of the system. -/
  alignment : Option Nat

namespace Arguments

/-- What is wrong with a command line, or a call for help. -/
inductive Fault where
  | unknown
  | valueMissing
  | valueUnwanted
  | repeated
  | valueUnreadable
  | helpWanted
  deriving DecidableEq, Repr

inductive Setting where
  | input
  | output
  | resolved
  | threshold
  | alignment
  deriving DecidableEq, Repr

inductive Switch where
  | noRemap
  | quiet
  | help
  deriving DecidableEq, Repr

inductive Key where
  | setting (s : Setting)
  | switch (s : Switch)
  deriving DecidableEq, Repr

def longNames : List (String × Key) :=
  [("input", .setting .input), ("output", .setting .output), ("resolved", .setting .resolved),
    ("no-remap", .switch .noRemap), ("threshold", .setting .threshold),
    ("page-alignment", .setting .alignment), ("quiet", .switch .quiet), ("help", .switch .help)]

def letters : List (Char × Key) :=
  [('i', .setting .input), ('o', .setting .output), ('q', .switch .quiet), ('h', .switch .help)]

/-- A command line of which a part was taken. -/
structure Draft where
  input : Option String
  output : Option String
  resolved : Option String
  quiet : Bool
  noRemap : Bool
  threshold : Option Float
  alignment : Option Nat
  /-- An option that waits for its value, or to have it looked at. -/
  pending : Option (Setting × Option String)
  /-- No more options can follow. -/
  closed : Bool

namespace Draft

def start : Draft := ⟨none, none, none, false, false, none, none, none, false⟩

def has (d : Draft) : Setting → Bool
  | .input => d.input.isSome
  | .output => d.output.isSome
  | .resolved => d.resolved.isSome
  | .threshold => d.threshold.isSome
  | .alignment => d.alignment.isSome

def fill (d : Draft) (s : Setting) (value : String) : Except Fault Draft :=
  match s with
  | .input => if value.isEmpty then .error .valueMissing else .ok { d with input := some value }
  | .output => if value.isEmpty then .error .valueMissing else .ok { d with output := some value }
  | .resolved =>
    if value.isEmpty then .error .valueMissing else .ok { d with resolved := some value }
  | .threshold =>
    match Decimal.real? value.toList with
    | some x => .ok { d with threshold := some x }
    | none => .error .valueUnreadable
  | .alignment =>
    match Decimal.count? top value.toList with
    | some n => .ok { d with alignment := some n }
    | none => .error .valueUnreadable

/-- Give a setting its value, if it has none yet. -/
def set (d : Draft) (s : Setting) (value : String) : Except Fault Draft :=
  if d.has s then .error .repeated else d.fill s value

/-- Look at the value of the option that is pending. -/
def settle (d : Draft) : Except Fault Draft :=
  match d.pending with
  | none => .ok d
  | some (_, none) => .error .valueMissing
  | some (s, some value) => { d with pending := none }.set s value

def attach (d : Draft) (s : Setting) (value : String) : Except Fault Draft :=
  match d.settle with
  | .error f => .error f
  | .ok d => d.set s value

def await (d : Draft) (s : Setting) : Except Fault Draft :=
  match d.settle with
  | .error f => .error f
  | .ok d => .ok { d with pending := some (s, none) }

def flip (d : Draft) (s : Switch) : Except Fault Draft :=
  match d.settle with
  | .error f => .error f
  | .ok d =>
    match s with
    | .help => .error .helpWanted
    | .quiet => if d.quiet then .error .repeated else .ok { d with quiet := true }
    | .noRemap => if d.noRemap then .error .repeated else .ok { d with noRemap := true }

/-- Options by letter, behind their dash. -/
def takeLetters (d : Draft) : List Char → Except Fault Draft
  | [] => .ok d
  | c :: rest =>
    match letters.lookup c with
    | none => .error .unknown
    | some (.switch s) =>
      match d.flip s with
      | .error f => .error f
      | .ok d => d.takeLetters rest
    | some (.setting s) =>
      match rest with
      | [] => d.await s
      | '=' :: value => d.attach s (String.ofList value)
      | value => d.attach s (String.ofList value)

def takeLong (d : Draft) (text : List Char) : Except Fault Draft :=
  let name := String.ofList (text.takeWhile (· ≠ '='))
  match longNames.lookup name, text.dropWhile (· ≠ '=') with
  | none, _ => .error .unknown
  | some (.setting s), _ :: value => d.attach s (String.ofList value)
  | some (.setting s), [] => d.await s
  | some (.switch _), _ :: _ => .error .valueUnwanted
  | some (.switch s), [] => d.flip s

/-- An argument that is no option: the value of the option that waits for one. -/
def takePlain (d : Draft) (argument : String) : Except Fault Draft :=
  match d.pending with
  | some (s, none) => .ok { d with pending := some (s, some argument) }
  | _ => .error .unknown

/-- Take one argument. Two dashes alone end the options; one dash alone is no option. -/
def take (d : Draft) (argument : String) : Except Fault Draft :=
  if d.closed then .error .unknown
  else
    match argument.toList with
    | ['-', '-'] => .ok { d with closed := true }
    | '-' :: '-' :: text => d.takeLong text
    | '-' :: c :: rest => d.takeLetters (c :: rest)
    | _ => d.takePlain argument

def takeAll (d : Draft) : List String → Except Fault Draft
  | [] => d.settle
  | argument :: rest =>
    match d.take argument with
    | .error f => .error f
    | .ok d => d.takeAll rest

def finish (d : Draft) : Arguments where
  input := d.input
  output := d.output
  resolved := d.resolved
  quiet := d.quiet
  remap := !d.noRemap
  threshold := d.threshold.getD Options.default.threshold
  alignment := d.alignment

end Draft

def parse (arguments : List String) : Except Fault Arguments :=
  (Draft.start.takeAll arguments).map Draft.finish

/-- What a run is asked for, on a system that tells this page size. -/
def options (a : Arguments) (told : Option Nat := none) : Options :=
  ⟨a.remap, a.threshold, a.alignment.getD (systemPage told)⟩

end Arguments
end Unslide
