import Unslide.Names
import Unslide.Thread

/-!
# Unslide.Commands

Command names, by number in the order in which they were met, and the command that each thread
carries at present.

* `idOf?_assign_self`, `idOf?_assign_of_ne`: assigning a command changes one thread's command.
-/

namespace Unslide

/-- Command names, and who carries which. -/
structure Commands where
  names : List String
  /-- The number of each name, for finding it. -/
  numbers : List (String × Nat)
  indexed : Indexes numbers names
  /-- The number of each thread's command; a thread stands here at most once. -/
  current : List (Thread × Nat)
  deriving DecidableEq, Repr

namespace Commands

def empty : Commands := ⟨[], [], .nil, []⟩

def size (t : Commands) : Nat := t.names.length

def nameOf? (t : Commands) (id : Nat) : Option String := t.names[id]?

/-- The number of a name, given out if it is new. -/
def intern (t : Commands) (name : String) : Commands × Nat :=
  match hfound : t.numbers.lookup name with
  | some id => (t, id)
  | none =>
    ({ t with
      names := t.names ++ [name]
      numbers := (name, t.size) :: t.numbers
      indexed := t.indexed.concat hfound }, t.size)

def idOf? (t : Commands) (thread : Thread) : Option Nat := t.current.lookup thread

def bind (t : Commands) (thread : Thread) (id : Nat) : Commands :=
  { t with current := (thread, id) :: t.current.filter (fun e => e.1 ≠ thread) }

/-- Let a thread carry the named command. Answers the number of the name. -/
def assign (t : Commands) (thread : Thread) (name : String) : Commands × Nat :=
  let (named, id) := t.intern name
  (named.bind thread id, id)

/-- Let a thread carry the command of another one. Answers whether that one has a command. -/
def inherit (t : Commands) (child parent : Thread) : Commands × Bool :=
  match t.idOf? parent with
  | some id => (t.bind child id, true)
  | none => (t, false)

def commandOf? (t : Commands) (thread : Thread) : Option String :=
  match t.idOf? thread with
  | some id => t.nameOf? id
  | none => none

theorem idOf?_bind_self (t : Commands) (thread : Thread) (id : Nat) :
    (t.bind thread id).idOf? thread = some id := by
  simp [bind, idOf?]

theorem idOf?_bind_of_ne (t : Commands) {thread other : Thread} (id : Nat) (h : other ≠ thread) :
    (t.bind thread id).idOf? other = t.idOf? other := by
  simp only [bind, idOf?]
  rw [lookup_cons_of_ne h, lookup_filter_of_ne h]

theorem idOf?_assign_self (t : Commands) (thread : Thread) (name : String) :
    (t.assign thread name).1.idOf? thread = some (t.assign thread name).2 :=
  idOf?_bind_self _ _ _

theorem idOf?_assign_of_ne (t : Commands) {thread other : Thread} (name : String)
    (h : other ≠ thread) : (t.assign thread name).1.idOf? other = t.idOf? other := by
  have hi : (t.intern name).1.idOf? other = t.idOf? other := by
    unfold intern
    split <;> rfl
  simpa [assign, hi] using idOf?_bind_of_ne (t.intern name).1 (t.intern name).2 h

end Commands
end Unslide
