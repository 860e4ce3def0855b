import Unslide.Space.Basic

/-!
# Unslide.Space.Placement

Finding room in synthetic space. A region goes to the lowest free place that keeps its page offset:
in front of the first region if it fits there, else into the spare bytes of the first region, in
synthetic order, that has room for it.
-/

namespace Unslide
namespace Space

/-- Room found in the spare bytes of a region. -/
structure Gap where
  slot : Nat
  /-- Its synthetic end. -/
  floor : Nat
  /-- Where the new region starts. -/
  place : Nat
  /-- What is left behind the new region. -/
  spare : Nat
  deriving DecidableEq, Repr

/-- Room for `size` bytes with page offset `offset` behind one region. -/
def gapBehind? (page size offset slot : Nat) (r : Region) : Option Gap :=
  match alignedFrom page offset r.placeEnd with
  | none => none
  | some place =>
    if place + size ≤ top ∧ place + size ≤ r.placeEnd + r.spare then
      some ⟨slot, r.placeEnd, place, r.placeEnd + r.spare - (place + size)⟩
    else none

/-- The first gap, in synthetic order, that has room. -/
def firstGap? (s : Space) (size offset : Nat) : Option Gap :=
  s.byPlace.values.findSome? fun slot =>
    match s.regionAt? slot with
    | none => none
    | some r => gapBehind? s.page size offset slot r

/-- Place a region that meets no other one. -/
def settle (s : Space) (r : Region) : Step Space (Except Refusal Unit) :=
  let offset := pageOffset s.page r.start
  let needed := r.size + offset
  if top < needed then ⟨s, .error (.exhausted r.start r.size), []⟩
  else
    match s.byPlace.first? with
    | none => ⟨s.store { r with place := offset, spare := top - needed }, .ok (), []⟩
    | some (first, _) =>
      if needed ≤ first then
        ⟨s.store { r with place := offset, spare := first - needed }, .ok (), []⟩
      else
        match s.firstGap? r.size offset with
        | none => ⟨s, .error (.exhausted r.start r.size), s.layoutNotes⟩
        | some gap =>
          let opened := s.adjust gap.slot fun p => { p with spare := gap.place - gap.floor }
          ⟨opened.store { r with place := gap.place, spare := gap.spare }, .ok (), []⟩

end Space
end Unslide
