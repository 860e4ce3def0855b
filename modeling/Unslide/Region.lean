import Unslide.Address

/-!
# Unslide.Region

One interval `[start, start + size)` of a process's real address space, and the interval of equal
size at `place` that stands for it in the process's synthetic space. All intervals are half open.

* `contains_iff`: the addresses of a region.
* `meets_comm`: two regions meet in the one order if they meet in the other.
-/

namespace Unslide

/-- A real interval, where it was placed, and what it stands for. -/
structure Region where
  start : Nat
  size : Nat
  place : Nat
  /-- The number its owner gave it, normally that of the mapping record behind it. -/
  id : Nat
  /-- File offset of `start`. -/
  base : Nat
  /-- Free synthetic bytes behind the region. -/
  spare : Nat
  deriving DecidableEq, Repr

namespace Region

/-- Exclusive end of the real interval. -/
def stop (r : Region) : Nat := r.start + r.size

/-- Exclusive end of the synthetic interval. -/
def placeEnd (r : Region) : Nat := r.place + r.size

def Contains (r : Region) (addr : Nat) : Prop := r.start ≤ addr ∧ addr < r.stop

instance (r : Region) (addr : Nat) : Decidable (r.Contains addr) :=
  inferInstanceAs (Decidable (_ ∧ _))

/-- The two real intervals share an address, if neither is empty. -/
def Meets (a b : Region) : Prop := a.start < b.stop ∧ b.start < a.stop

instance (a b : Region) : Decidable (a.Meets b) := inferInstanceAs (Decidable (_ ∧ _))

def Covers (a b : Region) : Prop := a.start ≤ b.start ∧ b.stop ≤ a.stop

instance (a b : Region) : Decidable (a.Covers b) := inferInstanceAs (Decidable (_ ∧ _))

def placeOf (r : Region) (addr : Nat) : Nat := r.place + (addr - r.start)

def fileOffset (r : Region) (addr : Nat) : Nat := wrap (addr - r.start + r.base)

theorem contains_iff {r : Region} {addr : Nat} :
    r.Contains addr ↔ r.start ≤ addr ∧ addr < r.start + r.size := Iff.rfl

theorem meets_comm {a b : Region} : a.Meets b ↔ b.Meets a := And.comm

end Region
end Unslide
