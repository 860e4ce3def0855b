import Unslide.Index
import Unslide.Step

/-!
# Unslide.Space

The synthetic address space of one process. Regions live in numbered slots; a slot that falls vacant
is used again, the one vacated last first. Two indexes name the live slots: `byStart` by the real
start of the region, for look-ups and for the search for collisions, and `byPlace` by its synthetic
start, for placement. In synthetic order a region, its spare bytes and the next region follow each
other without a hole, and the last region's spare bytes reach to the top.

`age` counts insertions and removals. A `Handle` remembers a slot and the age at which it was taken,
so it answers for that one region until the space changes.

* `regionAt?_adjust_self`, `regionAt?_adjust_of_ne`: what a change of one region does to the slots.
-/

namespace Unslide

/-- Regions of one process, in slots, with their two orders. -/
structure Space where
  slots : List (Option Region)
  /-- Vacant slots, the one to be used next first. -/
  vacant : List Nat
  /-- Real start of each region, and its slot. -/
  byStart : Index Nat
  /-- Synthetic start of each region, and its slot. -/
  byPlace : Index Nat
  /-- Page size whose offsets placement keeps, or `0`. -/
  page : Nat
  /-- Number of insertions and removals so far. -/
  age : Nat

/-- A reference to the region found for an address, good until the space changes. -/
structure Handle where
  slot : Nat
  age : Nat
  deriving DecidableEq, Repr

namespace Space

def empty (page : Nat) : Space := ⟨[], [], .empty, .empty, page, 0⟩

/-- The space without regions whose placement keeps page offsets, if `alignment` is a page size. -/
def aligned (alignment : Nat) : Space := empty (pageSize alignment)

def size (s : Space) : Nat := s.byStart.size

def isEmpty (s : Space) : Bool := s.byStart.isEmpty

def regionAt? (s : Space) (slot : Nat) : Option Region :=
  match s.slots[slot]? with
  | some (some r) => some r
  | _ => none

def regions (s : Space) : List Region := s.byPlace.values.filterMap s.regionAt?

def regionsByStart (s : Space) : List Region := s.byStart.values.filterMap s.regionAt?

def adjust (s : Space) (slot : Nat) (f : Region → Region) : Space :=
  { s with slots := s.slots.modify slot (Option.map f) }

theorem regionAt?_adjust_self (s : Space) (slot : Nat) (f : Region → Region) :
    (s.adjust slot f).regionAt? slot = (s.regionAt? slot).map f := by
  simp only [regionAt?, adjust, List.getElem?_modify, if_pos]
  cases h : s.slots[slot]? with
  | none => rfl
  | some o => cases o <;> rfl

theorem regionAt?_adjust_of_ne (s : Space) {slot other : Nat} (f : Region → Region)
    (h : slot ≠ other) : (s.adjust slot f).regionAt? other = s.regionAt? other := by
  simp only [regionAt?, adjust, List.getElem?_modify, if_neg h]
  cases s.slots[other]? with
  | none => rfl
  | some o => cases o <;> rfl

/-- Put a region into the next vacant slot, or into a new one. -/
def store (s : Space) (r : Region) : Space :=
  match s.vacant with
  | slot :: rest =>
    { s with
      slots := s.slots.set slot (some r)
      vacant := rest
      byStart := s.byStart.insert r.start slot
      byPlace := s.byPlace.insert r.place slot
      age := s.age + 1 }
  | [] =>
    { s with
      slots := s.slots ++ [some r]
      byStart := s.byStart.insert r.start s.slots.length
      byPlace := s.byPlace.insert r.place s.slots.length
      age := s.age + 1 }

def vacate (s : Space) (slot : Nat) (r : Region) : Space :=
  { s with
    slots := s.slots.set slot none
    vacant := slot :: s.vacant
    byStart := s.byStart.erase r.start
    byPlace := s.byPlace.erase r.place
    age := s.age + 1 }

/-- Remove the region in a slot. Its synthetic bytes become spare bytes of the region before it. -/
def release (s : Space) (slot : Nat) : Space :=
  match s.regionAt? slot with
  | none => s
  | some r =>
    let left := s.vacate slot r
    match left.byPlace.below? r.place with
    | none => left
    | some before =>
      left.adjust before.2 fun p => { p with spare := p.spare + (r.size + r.spare) }

def releaseAll (s : Space) (slots : List Nat) : Space := slots.foldl release s

/-- Set the page size, if there is no region yet. Answers the page size in force. -/
def setPage (s : Space) (alignment : Nat) : Step Space Nat :=
  if s.isEmpty then ⟨{ s with page := pageSize alignment }, pageSize alignment, []⟩
  else ⟨s, s.page, [.pageKept s.size]⟩

def layoutNotes (s : Space) : List Note :=
  .layout s.size s.page :: s.regions.map .layoutRegion

/-- The synthetic address of a real address, and a handle on its region. Only the region with the
greatest start not above the address can hold it. -/
def locate? (s : Space) (addr : Nat) : Option (Nat × Handle) :=
  match s.byStart.upTo? addr with
  | none => none
  | some (_, slot) =>
    match s.regionAt? slot with
    | none => none
    | some r => if r.Contains addr then some (r.placeOf addr, ⟨slot, s.age⟩) else none

/-- The number and file offset of a real address in the region behind a handle. -/
def attribute? (s : Space) (addr : Nat) (handle : Handle) : Option (Nat × Nat) :=
  if handle.age ≠ s.age then none
  else
    match s.regionAt? handle.slot with
    | none => none
    | some r => if r.Contains addr then some (r.id, r.fileOffset addr) else none

/-- Distance from the first to the last occupied synthetic byte, `0` without regions. -/
def extent (s : Space) : Nat :=
  match s.byPlace.first?, s.byPlace.last? with
  | some (first, _), some (_, slot) =>
    match s.regionAt? slot with
    | some r => r.placeEnd - first
    | none => 0
  | _, _ => 0

end Space
end Unslide
