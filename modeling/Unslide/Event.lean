import Unslide.Thread

/-!
# Unslide.Event

The records of a capture, in the order in which they were taken: mappings of files into processes,
births and ends of threads, command names, and samples. Process and thread numbers are below
`2 ^ 32`, addresses, sizes and offsets below `2 ^ 64`; `Event.InRange` says so.

* `isMarker_iff`: markers are the highest values of a call chain.
-/

namespace Unslide

/-- A file, or a part of it, is mapped into a process. -/
structure Mmap where
  pid : Nat
  tid : Nat
  start : Nat
  len : Nat
  /-- File offset of the first address. For the kernel's text, the address it was loaded at. -/
  pgoff : Nat
  filename : String
  /-- The record was marked as the kernel's. -/
  kernel : Bool
  deriving DecidableEq, Repr

/-- A thread begins or ends. -/
structure Lineage where
  pid : Nat
  ppid : Nat
  tid : Nat
  ptid : Nat
  deriving DecidableEq, Repr

/-- A thread takes a command name. -/
structure Naming where
  pid : Nat
  tid : Nat
  comm : String
  deriving DecidableEq, Repr

structure Branch where
  source : Nat
  target : Nat
  mispredicted : Bool
  deriving DecidableEq, Repr

/-- A thread was seen at an address. -/
structure Sample where
  pid : Nat
  tid : Nat
  ip : Nat
  /-- Call chain, innermost frame first, with markers between the frames. -/
  callchain : List Nat
  /-- Branches, most recent first, with padding at the end. -/
  branches : List Branch
  deriving DecidableEq, Repr

inductive Event where
  | mmap (e : Mmap)
  | fork (e : Lineage)
  | exit (e : Lineage)
  | comm (e : Naming)
  | sample (e : Sample)
  deriving DecidableEq, Repr

/-- The padding of a branch stack. -/
def Branch.null : Branch := ⟨0, 0, false⟩

def Branch.isNull (b : Branch) : Bool := b == .null

/-- The least value of a call chain that is a marker and not an address. -/
def firstMarker : Nat := top - 4094

/-- Whether a value of a call chain marks a switch between kinds of frames. -/
def isMarker (value : Nat) : Bool := decide (firstMarker ≤ value)

theorem isMarker_iff {value : Nat} : isMarker value = true ↔ firstMarker ≤ value := by
  simp [isMarker]

theorem isMarker_eq_false_iff {value : Nat} : isMarker value = false ↔ value < firstMarker := by
  simp [isMarker]

namespace Lineage

def child (e : Lineage) : Thread := ⟨e.pid, e.tid⟩

def parent (e : Lineage) : Thread := ⟨e.ppid, e.ptid⟩

end Lineage

def Naming.thread (e : Naming) : Thread := ⟨e.pid, e.tid⟩

def Sample.thread (e : Sample) : Thread := ⟨e.pid, e.tid⟩

namespace Event

def pid : Event → Nat
  | .mmap e => e.pid
  | .fork e => e.pid
  | .exit e => e.pid
  | .comm e => e.pid
  | .sample e => e.pid

/-- All numbers of a record are as large as its machine allows, or smaller. -/
def InRange : Event → Prop
  | .mmap e => e.pid ≤ topId ∧ e.tid ≤ topId ∧ e.start ≤ top ∧ e.len ≤ top ∧ e.pgoff ≤ top
  | .fork e => e.pid ≤ topId ∧ e.ppid ≤ topId ∧ e.tid ≤ topId ∧ e.ptid ≤ topId
  | .exit e => e.pid ≤ topId ∧ e.ppid ≤ topId ∧ e.tid ≤ topId ∧ e.ptid ≤ topId
  | .comm e => e.pid ≤ topId ∧ e.tid ≤ topId
  | .sample e =>
    e.pid ≤ topId ∧ e.tid ≤ topId ∧ e.ip ≤ top ∧ (∀ a ∈ e.callchain, a ≤ top) ∧
      ∀ b ∈ e.branches, b.source ≤ top ∧ b.target ≤ top

end Event
end Unslide
