import Unslide.Proofs.Space.Overlay

/-!
# Unslide.Proofs.Space.Machine

A space as a 64-bit machine computes it. The library counts with natural numbers; a machine adds and
subtracts words, masks them and indexes its arena. Here each operation of a space is done in those
steps, one for one, and an evaluation stops with a `Fault` where a sum without a check passes the
top, a difference falls below zero, an index leads to a slot without a region, or an entry would be
put over another one. Whatever is computed for a note is computed, too.

`add?` is a sum that the machine checks. Two results count modulo `2 ^ 64`: a file offset, by
`wrap`, and the extent of a space, by `wrapSub`.

* `pageOffset_eq`, `alignedFrom_eq`: masking a page is page arithmetic.
-/

namespace Unslide

/-- What a machine word cannot hold, and what the arena does not allow. -/
inductive Fault where
  | overflow (a b : Nat)
  | underflow (a b : Nat)
  | deadSlot (slot : Nat)
  | slotTaken (slot : Nat)
  | keyTaken (key : Nat)
  deriving DecidableEq, Repr

namespace Machine

open Space (Gap Call CutsOnPages)

/-! ## Words -/

def add (a b : Nat) : Except Fault Nat :=
  if a + b ≤ top then .ok (a + b) else .error (.overflow a b)

def sub (a b : Nat) : Except Fault Nat :=
  if b ≤ a then .ok (a - b) else .error (.underflow a b)

def add? (a b : Nat) : Option Nat := if a + b ≤ top then some (a + b) else none

def wrapSub (a b : Nat) : Nat := wrap (a + (top + 1 - b))

def pageOffset (page addr : Nat) : Except Fault Nat :=
  if page = 0 then .ok 0
  else do
    let mask ← sub page 1
    .ok (addr &&& mask)

def alignedFrom (page offset floor : Nat) : Except Fault (Option Nat) :=
  if page = 0 then .ok (some floor)
  else do
    let mask ← sub page 1
    match add? (floor &&& (top ^^^ mask)) offset with
    | none => .ok none
    | some candidate =>
      if floor ≤ candidate then .ok (some candidate) else .ok (add? candidate page)

theorem add_eq {a b : Nat} (h : a + b ≤ top) : add a b = .ok (a + b) := if_pos h

theorem sub_eq {a b : Nat} (h : b ≤ a) : sub a b = .ok (a - b) := if_pos h

theorem wrapSub_eq {a b : Nat} (ha : a ≤ top) (hb : b ≤ a) : wrapSub a b = a - b := by
  rw [wrapSub, show a + (top + 1 - b) = a - b + (top + 1) by omega, wrap, Nat.add_mod_right]
  exact Nat.mod_eq_of_lt (by omega)

theorem ok_bind {α β : Type} (a : α) (f : α → Except Fault β) : (Except.ok a >>= f) = f a := rfl

/-- The complement of a page mask takes the page offset away. -/
theorem and_complement {k floor : Nat} (h : floor ≤ top) :
    floor &&& (top ^^^ (Nat.pow 2 k - 1)) = floor - floor % Nat.pow 2 k := by
  have hword : floor &&& top = floor := by
    rw [show top = Nat.pow 2 64 - 1 from rfl]
    exact (Nat.and_two_pow_sub_one_eq_mod floor 64).trans (Nat.mod_eq_of_lt (Nat.lt_succ_of_le h))
  have hmask : floor &&& (Nat.pow 2 k - 1) = floor % Nat.pow 2 k :=
    Nat.and_two_pow_sub_one_eq_mod floor k
  have hbase : floor - floor % Nat.pow 2 k = Nat.pow 2 k * (floor / Nat.pow 2 k) := by
    have hsum := Nat.div_add_mod floor (Nat.pow 2 k)
    omega
  rw [Nat.and_xor_distrib_left, hword, hmask, hbase]
  refine Nat.eq_of_testBit_eq fun i => ?_
  have hlow : (floor % Nat.pow 2 k).testBit i = (decide (i < k) && floor.testBit i) :=
    Nat.testBit_mod_two_pow floor k i
  have hhigh : (Nat.pow 2 k * (floor / Nat.pow 2 k)).testBit i =
      (decide (k ≤ i) && (floor / Nat.pow 2 k).testBit (i - k)) := Nat.testBit_two_pow_mul
  have hshift : (floor / Nat.pow 2 k).testBit (i - k) = floor.testBit (i - k + k) :=
    Nat.testBit_div_two_pow floor (i - k)
  rw [Nat.testBit_xor, hlow, hhigh, hshift]
  by_cases hi : i < k
  · simp [hi, Nat.not_le.2 hi]
  · have hki := Nat.le_of_not_lt hi
    simp [hi, hki, Nat.sub_add_cancel hki]

theorem pageOffset_eq {page : Nat} (h : page = 0 ∨ isPowerOfTwo page = true) (addr : Nat) :
    pageOffset page addr = .ok (Unslide.pageOffset page addr) := by
  by_cases hzero : page = 0
  · simp only [pageOffset, Unslide.pageOffset, hzero, if_true]
  · obtain ⟨k, rfl⟩ := isPowerOfTwo_iff.1 (h.resolve_left hzero)
    have hpos : 1 ≤ Nat.pow 2 k := Nat.pos_of_ne_zero hzero
    have hmask : addr &&& (Nat.pow 2 k - 1) = addr % Nat.pow 2 k :=
      Nat.and_two_pow_sub_one_eq_mod addr k
    simp only [pageOffset, Unslide.pageOffset, hzero, if_false, sub_eq hpos, ok_bind, hmask]

theorem alignedFrom_eq {page floor : Nat} (h : page = 0 ∨ isPowerOfTwo page = true)
    (hfloor : floor ≤ top) (offset : Nat) :
    alignedFrom page offset floor = .ok (Unslide.alignedFrom page offset floor) := by
  by_cases hzero : page = 0
  · simp only [alignedFrom, Unslide.alignedFrom, hzero, if_true]
  · obtain ⟨k, rfl⟩ := isPowerOfTwo_iff.1 (h.resolve_left hzero)
    have hpos : 1 ≤ Nat.pow 2 k := Nat.pos_of_ne_zero hzero
    have hbase : floor &&& (top ^^^ (Nat.pow 2 k - 1)) = floor - floor % Nat.pow 2 k :=
      and_complement hfloor
    simp only [alignedFrom, Unslide.alignedFrom, hzero, if_false, sub_eq hpos, ok_bind, hbase, add?]
    by_cases hcandidate : floor - floor % Nat.pow 2 k + offset ≤ top
    · simp only [hcandidate, if_true, Nat.not_lt.2 hcandidate, if_false]
      split
      · rfl
      · split
        · rename_i hnext
          rw [if_neg (Nat.not_lt.2 hnext)]
        · rename_i hnext
          rw [if_pos (Nat.lt_of_not_le hnext)]
    · simp only [hcandidate, if_false, Nat.lt_of_not_le hcandidate, if_true]

/-! ## Regions -/

def stop (r : Region) : Except Fault Nat := add r.start r.size

def placeEnd (r : Region) : Except Fault Nat := add r.place r.size

def contains (r : Region) (addr : Nat) : Except Fault Bool :=
  if r.start ≤ addr then do
    let stop ← stop r
    .ok (decide (addr < stop))
  else .ok false

def meets (a b : Region) : Except Fault Bool := do
  let stop' ← stop b
  if a.start < stop' then do
    let stop ← stop a
    .ok (decide (b.start < stop))
  else .ok false

def covers (a b : Region) : Except Fault Bool :=
  if a.start ≤ b.start then do
    let inner ← stop b
    let outer ← stop a
    .ok (decide (inner ≤ outer))
  else .ok false

/-! ## Slots -/

def regionAt (s : Space) (slot : Nat) : Except Fault Region :=
  match s.regionAt? slot with
  | some r => .ok r
  | none => .error (.deadSlot slot)

def freshSlot (s : Space) : Except Fault Unit :=
  match s.vacant with
  | [] => .ok ()
  | slot :: _ => if s.slots[slot]? = some none then .ok () else .error (.slotTaken slot)

def freshKey (index : Index Nat) (key : Nat) : Except Fault Unit :=
  match index.find? key with
  | none => .ok ()
  | some _ => .error (.keyTaken key)

def store (s : Space) (r : Region) : Except Fault Space := do
  freshSlot s
  freshKey s.byStart r.start
  freshKey s.byPlace r.place
  let age ← add s.age 1
  .ok { s.store r with age := age }

/-- To release a slot without a region is a fault here: no operation comes to it. -/
def release (s : Space) (slot : Nat) : Except Fault Space := do
  let r ← regionAt s slot
  let age ← add s.age 1
  let left : Space := { s.vacate slot r with age := age }
  match left.byPlace.below? r.place with
  | none => .ok left
  | some (_, before) =>
    let freed ← add r.size r.spare
    let p ← regionAt left before
    let spare ← add p.spare freed
    .ok (left.adjust before fun p => { p with spare := spare })

def releaseAll (s : Space) (slots : List Nat) : Except Fault Space := slots.foldlM release s

/-! ## Placement -/

def gapBehind? (page size offset slot : Nat) (r : Region) : Except Fault (Option Gap) := do
  let floor ← placeEnd r
  let ceiling ← add floor r.spare
  match ← alignedFrom page offset floor with
  | none => .ok none
  | some place =>
    match add? place size with
    | none => .ok none
    | some stop =>
      if stop ≤ ceiling then do
        let spare ← sub ceiling stop
        .ok (some ⟨slot, floor, place, spare⟩)
      else .ok none

def gapAmong? (s : Space) (size offset : Nat) : List Nat → Except Fault (Option Gap)
  | [] => .ok none
  | slot :: rest => do
    let r ← regionAt s slot
    match ← gapBehind? s.page size offset slot r with
    | some gap => .ok (some gap)
    | none => gapAmong? s size offset rest

def firstGap? (s : Space) (size offset : Nat) : Except Fault (Option Gap) :=
  gapAmong? s size offset s.byPlace.values

/-- The notes on some slots. Their lines show both ends of a region. -/
def regionNotes (s : Space) : List Nat → Except Fault (List Note)
  | [] => .ok []
  | slot :: rest => do
    let r ← regionAt s slot
    let _ ← stop r
    let _ ← placeEnd r
    let more ← regionNotes s rest
    .ok (.layoutRegion r :: more)

def layoutNotes (s : Space) : Except Fault (List Note) := do
  let notes ← regionNotes s s.byPlace.values
  .ok (.layout s.size s.page :: notes)

/-- The sum of size and page offset is not checked here. If it overflows, that is a fault and no
reason to refuse the region. -/
def settle (s : Space) (r : Region) : Except Fault (Step Space (Except Refusal Unit)) := do
  let offset ← pageOffset s.page r.start
  let needed ← add r.size offset
  match s.byPlace.first? with
  | none => do
    let spare ← sub top needed
    let t ← store s { r with place := offset, spare := spare }
    .ok ⟨t, .ok (), []⟩
  | some (first, _) =>
    if needed ≤ first then do
      let spare ← sub first needed
      let t ← store s { r with place := offset, spare := spare }
      .ok ⟨t, .ok (), []⟩
    else
      match ← firstGap? s r.size offset with
      | none => do
        let notes ← layoutNotes s
        .ok ⟨s, .error (.exhausted r.start r.size), notes⟩
      | some gap => do
        let before ← regionAt s gap.slot
        let floor ← placeEnd before
        let cut ← sub gap.place floor
        let t ← store (s.adjust gap.slot fun p => { p with spare := cut })
          { r with place := gap.place, spare := gap.spare }
        .ok ⟨t, .ok (), []⟩

/-! ## Reservations -/

def touchingBelow (s : Space) (r : Region) : Except Fault (List Nat) :=
  match s.byStart.below? r.start with
  | none => .ok []
  | some (_, slot) => do
    let p ← regionAt s slot
    let met ← meets p r
    .ok (if met then [slot] else [])

def touching (s : Space) (r : Region) : Except Fault (List Nat) := do
  let below ← touchingBelow s r
  let stop ← stop r
  .ok (below ++ (s.byStart.within r.start stop).map (·.2))

def isValid (q : Request) : Bool := q.size != 0 && (add? q.start q.size).isSome

def reserveFree (s : Space) (q : Request) : Except Fault (Step Space (Except Refusal Unit)) :=
  if isValid q then do
    match ← touching s q.region with
    | [] => settle s q.region
    | _ :: _ => .ok ⟨s, .error (.collision q.start q.size), []⟩
  else .ok ⟨s, .error (.invalid q.start q.size), []⟩

def reserveEach (s : Space) : List Request → Except Fault (Step Space (Except Refusal Unit))
  | [] => .ok ⟨s, .ok (), []⟩
  | q :: rest => do
    let first ← reserveFree s q
    match first.answer with
    | .error e => .ok ⟨first.state, .error e, first.notes⟩
    | .ok _ => do
      let others ← reserveEach first.state rest
      .ok (others.after first.notes)

/-- The pieces of `old` around the interval of `q`, whose head is `head` bytes long. -/
def pieces (old : Region) (q : Request) (head tail : Nat) : Except Fault (List Request) := do
  let stop ← add q.start q.size
  let behind ← add head q.size
  .ok ((if 0 < head then [⟨old.start, head, old.id, old.base⟩] else []) ++ [q] ++
    (if 0 < tail then [⟨stop, tail, old.id, wrap (old.base + behind)⟩] else []))

def cutsOnPages (page head size : Nat) : Except Fault Bool :=
  if page = 0 then .ok true
  else if head % page = 0 then do
    let behind ← add head size
    .ok (decide (behind % page = 0))
  else .ok false

def carve (s : Space) (slot : Nat) (old : Region) (q : Request) :
    Except Fault (Step Space (Except Refusal Unit)) := do
  let head ← sub q.start old.start
  let outer ← stop old
  let inner ← add q.start q.size
  let tail ← sub outer inner
  let clean ← cutsOnPages s.page head q.size
  if clean then do
    let left ← release s slot
    let parts ← pieces old q head tail
    let placed ← reserveEach left parts
    .ok (placed.after [.carving old q.start q.size q.id])
  else .ok ⟨s, .error (.misaligned q.start q.size old.start old.size), []⟩

def covering? (s : Space) (slots : List Nat) (q : Request) :
    Except Fault (Option (Nat × Region)) :=
  match slots with
  | [slot] => do
    let old ← regionAt s slot
    let covered ← covers old q.region
    .ok (if covered = true ∧ q.size < old.size then some (slot, old) else none)
  | _ => .ok none

def reserve (s : Space) (q : Request) (replace : Bool) :
    Except Fault (Step Space (Except Refusal Unit)) :=
  if isValid q then do
    match ← touching s q.region with
    | [] => settle s q.region
    | slot :: more =>
      if replace = false then .ok ⟨s, .error (.collision q.start q.size), []⟩
      else
        match ← covering? s (slot :: more) q with
        | some (slot, old) => carve s slot old q
        | none => do
          let left ← releaseAll s (slot :: more)
          settle left q.region
  else .ok ⟨s, .error (.invalid q.start q.size), []⟩

def perform (s : Space) : Call → Except Fault Space
  | .reserve q replace => do
    let step ← reserve s q replace
    .ok step.state
  | .setPage alignment => .ok (s.setPage alignment).state

def performAll (s : Space) (calls : List Call) : Except Fault Space := calls.foldlM perform s

/-! ## Look-ups -/

def locate? (s : Space) (addr : Nat) : Except Fault (Option (Nat × Handle)) :=
  match s.byStart.upTo? addr with
  | none => .ok none
  | some (_, slot) => do
    let r ← regionAt s slot
    let inside ← contains r addr
    if inside then do
      let offset ← sub addr r.start
      let place ← add r.place offset
      .ok (some (place, ⟨slot, s.age⟩))
    else .ok none

/-- A handle may lead to a slot without a region: it is looked at only if it is not stale. -/
def attribute? (s : Space) (addr : Nat) (handle : Handle) : Except Fault (Option (Nat × Nat)) :=
  if handle.age ≠ s.age then .ok none
  else
    match s.regionAt? handle.slot with
    | none => .ok none
    | some r => do
      let inside ← contains r addr
      if inside then do
        let offset ← sub addr r.start
        .ok (some (r.id, wrap (offset + r.base)))
      else .ok none

def extent (s : Space) : Except Fault Nat :=
  match s.byPlace.first?, s.byPlace.last? with
  | some (first, _), some (_, slot) => do
    let r ← regionAt s slot
    let last ← placeEnd r
    .ok (wrapSub last first)
  | _, _ => .ok 0

end Machine
end Unslide
