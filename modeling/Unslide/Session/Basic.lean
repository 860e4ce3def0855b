import Unslide.Commands
import Unslide.Event
import Unslide.Failure
import Unslide.Images
import Unslide.Processes

/-!
# Unslide.Session

The state of a walk through a capture: the address spaces, the images and commands by name, and what
is known about each mapping. Mappings are known by the number of their record.

* `isPowerOfTwo_systemPage`: whatever a system tells, page offsets can be kept on it.
* `unsampled_ascending`: the mappings that no address was resolved into are listed in ascending
  order, each once.
-/

namespace Unslide

structure Options where
  /-- Replace the addresses in records by synthetic ones. -/
  remap : Bool
  /-- Percentage of samples that have to be mapped. -/
  threshold : Float
  /-- Page size whose offsets synthetic addresses keep; no page size, no such promise. -/
  alignment : Nat

/-- The page size of mappings. It stands in where addresses have to keep their offset though no page
size was asked for, and where a system does not tell its page size. -/
def defaultPage : Nat := 4096

/-- The page size of a system, by what it tells of it. -/
def systemPage (told : Option Nat) : Nat := (told.filter isPowerOfTwo).getD defaultPage

theorem isPowerOfTwo_systemPage (told : Option Nat) : isPowerOfTwo (systemPage told) = true := by
  cases hpage : told.filter isPowerOfTwo with
  | none =>
    rw [systemPage, hpage]
    decide
  | some page =>
    rw [systemPage, hpage]
    exact (Option.filter_eq_some_iff.1 hpage).2

/-- What holds unless it is asked for something else, on a system that tells this page size. -/
def Options.default (told : Option Nat := none) : Options :=
  ⟨true, Decimal.ofCount 95, systemPage told⟩

/-- What is known about one mapping. -/
structure Mapping where
  pid : Nat
  /-- Number of the backing image. -/
  image : Nat
  /-- First real address, as registered. -/
  start : Nat
  len : Nat
  pgoff : Nat
  /-- Addresses resolved into the mapping. -/
  samples : Nat
  deriving DecidableEq, Repr

/-- The state of a walk through a capture. -/
structure Session where
  options : Options
  processes : Processes
  images : Images
  commands : Commands
  /-- Mappings by the number of their record. -/
  mappings : Index Mapping

namespace Session

def start (options : Options) : Session :=
  ⟨options, .start options.alignment, .empty, .empty, .empty⟩

/-- The page size within which synthetic addresses have to keep their offset. -/
def checkedPage (s : Session) : Nat :=
  if s.processes.page = 0 then defaultPage else s.processes.page

/-- Numbers of the mappings that no address was resolved into, ascending. -/
def unsampled (s : Session) : List Nat :=
  (s.mappings.entries.filter (fun e => e.2.samples = 0)).map (·.1)

theorem unsampled_ascending (s : Session) : s.unsampled.Pairwise (· < ·) :=
  List.pairwise_map.2 (s.mappings.ascending.filter _)

/-- Two addresses lie at the same offset in their pages. -/
def SameOffset (page a b : Nat) : Prop := a % page = b % page

instance (page a b : Nat) : Decidable (SameOffset page a b) := inferInstanceAs (Decidable (_ = _))

end Session
end Unslide
