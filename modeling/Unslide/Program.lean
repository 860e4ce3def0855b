import Unslide.Arguments
import Unslide.Capture
import Unslide.Replay

/-!
# Unslide.Program

The program behind the command line, for any surroundings that can read and write files: read a
capture, run over it, write the records and the resolved samples, and report. Everything is read and
done before the first file is written, so a run that fails writes nothing.

* `exitCode_ne_zero`: trouble of any kind shows in the exit code.
-/

namespace Unslide
namespace Program

inductive FileFault where
  | missing
  | notDirectory
  | isDirectory
  | nameTooLong
  | noRoom
  | noDevice
  | other (words : String)
  deriving DecidableEq, Repr

def FileFault.message : FileFault → String
  | .missing => "No such file or directory (os error 2)"
  | .notDirectory => "Not a directory (os error 20)"
  | .isDirectory => "Is a directory (os error 21)"
  | .nameTooLong => "File name too long (os error 36)"
  | .noRoom => "No space left on device (os error 28)"
  | .noDevice => "No such device or address (os error 6)"
  | .other words => words

/-- What the program writes to a file or to the standard output. -/
inductive Product where
  | records
  | samples
  | usage
  deriving DecidableEq, Repr

def Product.text : Product → String
  | .records => "events"
  | .samples => "resolved samples"
  | .usage => "usage"

inductive Trouble where
  | cannotOpen (path : String) (fault : FileFault)
  | cannotRead (fault : FileFault)
  | cannotCreate (path : String) (fault : FileFault)
  | cannotWrite (product : Product) (fault : FileFault)
  | badCapture (fault : Capture.Fault)
  | failed (failure : Failure)

namespace Trouble

def message : Trouble → String
  | .cannotOpen path fault => "Failed to open " ++ path ++ ": " ++ fault.message
  | .cannotRead fault => fault.message
  | .cannotCreate path fault => "Failed to create " ++ path ++ ": " ++ fault.message
  | .cannotWrite product fault => "Failed to write " ++ product.text ++ ": " ++ fault.message
  | .badCapture fault => fault.chain
  | .failed failure => failure.chain

/-- The exit code for a trouble: a line that is no record and a missed threshold have their own. -/
def exitCode : Trouble → Nat
  | .badCapture (.badLine _ _ _) => 65
  | .failed (.belowThreshold _ _ _) => 3
  | _ => 1

theorem exitCode_ne_zero (t : Trouble) : t.exitCode ≠ 0 := by
  unfold exitCode
  split <;> decide

end Trouble

def usageCode : Nat := 2

/-- Surroundings of the program. Without a path it reads the standard input and writes the standard
output. -/
structure Host (m : Type → Type) where
  /-- The page size that the system tells, if it tells one. -/
  page : m (Option Nat)
  read : Option String → m (Except Trouble (List UInt8))
  /-- Make the file anew with this text. -/
  write : Product → Option String → String → m (Except Trouble Unit)
  complain : String → m Unit

/-- What a run over the bytes of a capture gives. -/
def process (o : Options) (bytes : List UInt8) : Except Trouble Replay :=
  match Capture.read bytes with
  | .error fault => .error (.badCapture fault)
  | .ok events =>
    match (Replay.run o events).answer with
    | .error failure => .error (.failed failure)
    | .ok replay => .ok replay

def summary (replay : Replay) : String :=
  replay.tally.text ++ "\n" ++
    if replay.unsampled.isEmpty then ""
    else "unsampled mmaps: " ++ Text.decimal replay.unsampled.length ++ "\n"

variable {m : Type → Type} [Monad m]

def writeReport (host : Host m) (a : Arguments) (replay : Replay) : m (Except Trouble Unit) :=
  match a.resolved with
  | none => pure (.ok ())
  | some path => host.write .samples (some path) (Report.text replay.lines)

def writeAll (host : Host m) (a : Arguments) (replay : Replay) : m (Except Trouble Unit) := do
  match ← host.write .records a.output (Capture.text replay.events) with
  | .error t => return .error t
  | .ok _ => writeReport host a replay

def attempt (host : Host m) (a : Arguments) : m (Except Trouble Replay) := do
  let told ← host.page
  match ← host.read a.input with
  | .error t => return .error t
  | .ok bytes =>
    match process (a.options told) bytes with
    | .error t => return .error t
    | .ok replay =>
      match ← writeAll host a replay with
      | .error t => return .error t
      | .ok _ => return .ok replay

/-- Run the program for a command line. Gives its exit code. -/
def execute (host : Host m) (a : Arguments) : m Nat := do
  match ← attempt host a with
  | .error t =>
    host.complain ("error: " ++ t.message ++ "\n")
    return t.exitCode
  | .ok replay =>
    if a.quiet then return 0
    else
      host.complain (summary replay)
      return 0

def usage : String :=
  "Usage: unslide [-i FILE] [-o FILE] [--resolved FILE] [--no-remap] [--threshold PERCENT]\n" ++
    "               [--page-alignment BYTES] [-q] [-h]\n"

def run (host : Host m) (arguments : List String) : m Nat :=
  match Arguments.parse arguments with
  | .ok a => execute host a
  | .error .helpWanted => do
    let _ ← host.write .usage none usage
    return 0
  | .error _ => do
    host.complain usage
    return usageCode

end Program
end Unslide
