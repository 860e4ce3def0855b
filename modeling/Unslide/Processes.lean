import Unslide.Space.Reservation

/-!
# Unslide.Processes

The address spaces of all processes seen so far, and the kernel's. A process that is met for the
first time starts with a copy of its parent's space, or of the kernel's if the parent is unknown, or
with an empty one. Later changes to either side do not reach the other.

* `get?_put_self`, `get?_put_of_ne`: the spaces read as a partial function of the process.
-/

namespace Unslide

/-- One address space for each process, one for the kernel, and the page size of new spaces. -/
structure Processes where
  spaces : Index Space
  kernel : Option Space
  page : Nat

namespace Processes

def start (alignment : Nat) : Processes := ⟨.empty, none, pageSize alignment⟩

def get? (ps : Processes) (pid : Nat) : Option Space :=
  if pid = kernelPid then ps.kernel else ps.spaces.find? pid

def put (ps : Processes) (pid : Nat) (s : Space) : Processes :=
  if pid = kernelPid then { ps with kernel := some s }
  else { ps with spaces := ps.spaces.insert pid s }

/-- The space that a new process starts with, and the notes on its origin. -/
def seed (ps : Processes) (pid parent : Nat) : Space × List Note :=
  if pid = kernelPid then (.aligned ps.page, [])
  else
    match ps.spaces.find? parent with
    | some s => (s, [.seededFromParent pid parent s.size])
    | none =>
      match ps.kernel with
      | some s => (s, [.seededFromKernel pid s.size])
      | none => (.aligned ps.page, [.startedEmpty pid])

/-- The space of a process, made if it has none. Answers the space, and whether it is new. -/
def ensure (ps : Processes) (pid parent : Nat) : Step Processes (Space × Bool) :=
  match ps.get? pid with
  | some s => ⟨ps, (s, false), []⟩
  | none =>
    let (s, notes) := ps.seed pid parent
    ⟨ps.put pid s, (s, true), notes⟩

/-- The number of processes, not counting the kernel. -/
def size (ps : Processes) : Nat := ps.spaces.size

def isEmpty (ps : Processes) : Bool := ps.spaces.isEmpty

theorem get?_put_self (ps : Processes) (pid : Nat) (s : Space) :
    (ps.put pid s).get? pid = some s := by
  by_cases h : pid = kernelPid
  · simp [put, get?, h]
  · simp [put, get?, h, Index.find?_insert_self]

theorem get?_put_of_ne (ps : Processes) {pid other : Nat} (s : Space) (h : other ≠ pid) :
    (ps.put pid s).get? other = ps.get? other := by
  by_cases hp : pid = kernelPid
  · subst hp
    simp [put, get?, h]
  · by_cases ho : other = kernelPid
    · simp [put, get?, hp, ho]
    · simp [put, get?, hp, ho, Index.find?_insert_of_ne _ _ h]

end Processes
end Unslide
