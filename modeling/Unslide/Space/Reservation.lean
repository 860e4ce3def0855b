import Unslide.Space.Placement

/-!
# Unslide.Space.Reservation

Reserving a real interval in a space. The interval must not be empty and must end below the top. If
it meets live regions, it is refused, unless it may replace them. Then a single larger region that
covers it is carved: its head and tail stay, under the same number; and any other regions that it
meets are removed whole.
-/

namespace Unslide

/-- An interval to be reserved, and what it stands for. -/
structure Request where
  start : Nat
  size : Nat
  id : Nat
  /-- File offset of `start`. -/
  base : Nat
  deriving DecidableEq, Repr

namespace Request

def stop (q : Request) : Nat := q.start + q.size

/-- The interval is not empty and ends below the top. -/
def Valid (q : Request) : Prop := q.size ≠ 0 ∧ q.stop ≤ top

instance (q : Request) : Decidable q.Valid := inferInstanceAs (Decidable (_ ∧ _))

/-- The region for the interval before it has a place. -/
def region (q : Request) : Region := ⟨q.start, q.size, 0, q.id, q.base, 0⟩

end Request

namespace Space

/-- Slots of the regions that meet the interval of `r`, in real order. Of the regions that start
below it only the nearest can reach into it. -/
def touching (s : Space) (r : Region) : List Nat :=
  let below :=
    match s.byStart.below? r.start with
    | none => []
    | some (_, slot) =>
      match s.regionAt? slot with
      | none => []
      | some p => if p.Meets r then [slot] else []
  below ++ (s.byStart.within r.start r.stop).map (·.2)

/-- Reserve an interval that is to meet no live region. -/
def reserveFree (s : Space) (q : Request) : Step Space (Except Refusal Unit) :=
  if ¬ q.Valid then ⟨s, .error (.invalid q.start q.size), []⟩
  else
    match s.touching q.region with
    | [] => s.settle q.region
    | _ :: _ => ⟨s, .error (.collision q.start q.size), []⟩

/-- Reserve intervals that are to meet no live region, one after the other, up to the first that is
refused. -/
def reserveEach (s : Space) : List Request → Step Space (Except Refusal Unit)
  | [] => ⟨s, .ok (), []⟩
  | q :: rest =>
    let first := s.reserveFree q
    match first.answer with
    | .error e => ⟨first.state, .error e, first.notes⟩
    | .ok _ => (first.state.reserveEach rest).after first.notes

/-- The pieces of `old` around the interval of `q`, with `q` between them. -/
def pieces (old : Region) (q : Request) : List Request :=
  let head := q.start - old.start
  let tail := old.stop - q.stop
  (if 0 < head then [⟨old.start, head, old.id, old.base⟩] else []) ++ [q] ++
    (if 0 < tail then [⟨q.stop, tail, old.id, wrap (old.base + (head + q.size))⟩] else [])

/-- Both cuts that `q` makes into `old` fall on a page boundary of `old`. -/
def CutsOnPages (page : Nat) (old : Region) (q : Request) : Prop :=
  page = 0 ∨ ((q.start - old.start) % page = 0 ∧ (q.start - old.start + q.size) % page = 0)

instance (page : Nat) (old : Region) (q : Request) : Decidable (CutsOnPages page old q) :=
  inferInstanceAs (Decidable (_ ∨ _))

/-- Replace the covering region `old` in `slot` by its pieces around `q`. -/
def carve (s : Space) (slot : Nat) (old : Region) (q : Request) :
    Step Space (Except Refusal Unit) :=
  if CutsOnPages s.page old q then
    ((s.release slot).reserveEach (pieces old q)).after [.carving old q.start q.size q.id]
  else ⟨s, .error (.misaligned q.start q.size old.start old.size), []⟩

/-- The one region among `slots` that covers `q` and is larger, with its slot. -/
def covering? (s : Space) (slots : List Nat) (q : Request) : Option (Nat × Region) :=
  match slots with
  | [slot] =>
    match s.regionAt? slot with
    | none => none
    | some old => if old.Covers q.region ∧ q.size < old.size then some (slot, old) else none
  | _ => none

/-- Reserve an interval. With `replace` it takes the room of the regions that it meets. -/
def reserve (s : Space) (q : Request) (replace : Bool) : Step Space (Except Refusal Unit) :=
  if ¬ q.Valid then ⟨s, .error (.invalid q.start q.size), []⟩
  else
    match s.touching q.region with
    | [] => s.settle q.region
    | slot :: more =>
      if replace = false then ⟨s, .error (.collision q.start q.size), []⟩
      else
        match s.covering? (slot :: more) q with
        | some (slot, old) => s.carve slot old q
        | none => (s.releaseAll (slot :: more)).settle q.region

end Space
end Unslide
