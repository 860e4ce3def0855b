import Unslide.Program

/-!
# Unslide.Main

The program in its real surroundings.
-/

namespace Unslide
namespace Console

open Program (FileFault Host Product Trouble)

/-- The fault behind an error of the operating system. -/
def faultOf (e : IO.Error) : FileFault :=
  match e with
  | .noFileOrDirectory _ _ _ => .missing
  | .inappropriateType _ code _ => if code = 20 then .notDirectory else .isDirectory
  | .invalidArgument _ 36 _ => .nameTooLong
  | .resourceExhausted _ 28 _ => .noRoom
  | .noSuchThing _ 6 _ => .noDevice
  | e => .other e.toString

/-- Read a stream to its end, behind the bytes in `done`. -/
partial def drain (stream : IO.FS.Stream) (done : ByteArray) : IO ByteArray := do
  let bytes ← stream.read 65536
  if bytes.isEmpty then return done else drain stream (done ++ bytes)

def readInput : IO (Except Trouble (List UInt8)) := do
  try
    let bytes ← drain (← IO.getStdin) .empty
    return .ok bytes.data.toList
  catch e => return .error (.cannotRead (faultOf e))

def readHandle (handle : IO.FS.Handle) : IO (Except Trouble (List UInt8)) := do
  try
    let bytes ← handle.readBinToEnd
    return .ok bytes.data.toList
  catch e => return .error (.cannotRead (faultOf e))

def readFile (path : String) : IO (Except Trouble (List UInt8)) := do
  try
    let handle ← IO.FS.Handle.mk path .read
    readHandle handle
  catch e => return .error (.cannotOpen path (faultOf e))

def writeOutput (product : Product) (text : String) : IO (Except Trouble Unit) := do
  try
    let output ← IO.getStdout
    output.putStr text
    output.flush
    return .ok ()
  catch e => return .error (.cannotWrite product (faultOf e))

def writeHandle (handle : IO.FS.Handle) (product : Product) (text : String) :
    IO (Except Trouble Unit) := do
  try
    handle.putStr text
    handle.flush
    return .ok ()
  catch e => return .error (.cannotWrite product (faultOf e))

def writeFile (product : Product) (path : String) (text : String) : IO (Except Trouble Unit) := do
  try
    let handle ← IO.FS.Handle.mk path .write
    writeHandle handle product text
  catch e => return .error (.cannotCreate path (faultOf e))

/-- The number that a word stands for, least byte first. -/
def wordValue (bytes : List UInt8) : Nat := bytes.foldr (fun b value => b.toNat + 256 * value) 0

/-- The page size among what a system tells a program of itself: pairs of words, of which the first
says what the second one is. Six stands for the page size. -/
def pageAmong (bytes : List UInt8) : Option Nat :=
  if bytes.length < 16 then none
  else if wordValue (bytes.take 8) = 6 then some (wordValue ((bytes.drop 8).take 8))
  else pageAmong (bytes.drop 16)
termination_by bytes.length

def tellPage : IO (Option Nat) := do
  match ← readFile "/proc/self/auxv" with
  | .ok bytes => return pageAmong bytes
  | .error _ => return none

/-- The real surroundings of the program. -/
def host : Host IO where
  page := tellPage
  read := fun path =>
    match path with
    | none => readInput
    | some path => readFile path
  write := fun product path text =>
    match path with
    | none => writeOutput product text
    | some path => writeFile product path text
  complain := fun text => IO.eprint text

end Console
end Unslide

def main (arguments : List String) : IO UInt32 := do
  let code ← Unslide.Program.run Unslide.Console.host arguments
  return UInt32.ofNat code
