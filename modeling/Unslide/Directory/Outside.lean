/-!
# Unslide.Directory.Outside

What lies around the directory that a program runs in, as far as every system has it: the
directories below the root, and the devices. A place is given by the names on the way from the root,
the last one first.
-/

namespace Unslide

/-- Files that keep no bytes. -/
inductive Device where
  /-- Takes all bytes and gives none. -/
  | null
  /-- Has no room for a single byte. -/
  | full
  /-- The terminal of the program, which has none. -/
  | terminal
  | input
  | output
  | complaints
  deriving DecidableEq, Repr

/-- What stands at a place outside of the directory. -/
inductive Outside where
  | directory
  | device (d : Device)
  deriving DecidableEq, Repr

def rootNames : List String :=
  ["bin", "boot", "dev", "etc", "home", "lib", "media", "mnt", "opt", "proc", "root", "run", "sbin",
    "srv", "sys", "tmp", "usr", "var"]

def devices : List (String × Outside) :=
  [("null", .device .null), ("zero", .device .null), ("full", .device .full),
    ("tty", .device .terminal), ("stdin", .device .input), ("stdout", .device .output),
    ("stderr", .device .complaints), ("pts", .directory), ("shm", .directory)]

def streams : List (String × Outside) :=
  [("0", .device .input), ("1", .device .output), ("2", .device .complaints)]

/-- The place that a place stands for: the list of streams has a second name. -/
def follow (place : List String) : List String :=
  if place = ["fd", "dev"] then ["fd", "self", "proc"] else place

def outsideAt? : List String → Option Outside
  | [] => some .directory
  | [name] => if rootNames.contains name then some .directory else none
  | [name, above] =>
    if above = "dev" then devices.lookup name
    else if above = "proc" ∧ name = "self" then some .directory
    else none
  | name :: above =>
    if above = ["self", "proc"] ∧ name = "fd" then some .directory
    else if above = ["fd", "self", "proc"] then streams.lookup name
    else none

end Unslide
