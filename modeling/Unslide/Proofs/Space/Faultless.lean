import Unslide.Proofs.Space.Frame
import Unslide.Proofs.Space.Handles
import Unslide.Proofs.Space.Machine

/-!
# Unslide.Proofs.Space.Faultless

A machine computes what the library says, to the top of the address space. No word overflows, no
difference falls below zero, every index leads to a live slot and no entry is put over another one.
The bounds are those of the invariant: regions end below the top in both spaces, and so do the spare
bytes behind them. What an operation is about to write is bounded by the invariant of the space
that it leaves.

* `settle_eq`, `release_eq`: placement and removal.
* `reserve_eq`: reservations, to the last piece of a carving.
* `faultless_of_reachable`: all operations, in every space that a process can have.
-/

namespace Unslide
namespace Machine

open Space

variable {s : Space} {q : Request} {slot : Nat} {r p old : Region}

/-! ## Regions -/

theorem stop_eq (h : r.stop ≤ top) : stop r = .ok r.stop := add_eq h

theorem placeEnd_eq (h : r.placeEnd ≤ top) : placeEnd r = .ok r.placeEnd := add_eq h

theorem contains_eq (h : r.stop ≤ top) (addr : Nat) :
    contains r addr = .ok (decide (r.Contains addr)) := by
  simp only [contains, stop_eq h, ok_bind, Region.Contains]
  split <;> simp [*]

theorem meets_eq (hp : p.stop ≤ top) (hr : r.stop ≤ top) :
    meets p r = .ok (decide (p.Meets r)) := by
  simp only [meets, stop_eq hp, stop_eq hr, ok_bind, Region.Meets]
  split <;> simp [*]

theorem covers_eq (hp : p.stop ≤ top) (hr : r.stop ≤ top) :
    covers p r = .ok (decide (p.Covers r)) := by
  simp only [covers, stop_eq hp, stop_eq hr, ok_bind, Region.Covers]
  split <;> simp [*]

/-! ## Slots -/

theorem regionAt_eq (hr : s.regionAt? slot = some r) : regionAt s slot = .ok r := by
  simp only [regionAt, hr]

theorem freshSlot_eq (h : s.Coherent) : freshSlot s = .ok () := by
  simp only [freshSlot]
  cases hv : s.vacant with
  | nil => rfl
  | cons slot rest =>
    have hempty : s.slots[slot]? = some none := (h.mem_vacant slot).1 (by simp [hv])
    simp only [hempty, if_true]

/-- A key is free if the index names the slots before and behind the new entry. -/
theorem freshKey_eq {key : Region → Nat} {index : Index Nat} (hs : s.Coherent)
    (h : s.Names key index) (hafter : (s.store r).Names key (index.insert (key r) s.nextSlot)) :
    freshKey index (key r) = .ok () := by
  simp only [freshKey]
  cases hfind : index.find? (key r) with
  | none => rfl
  | some i =>
    obtain ⟨p, hp, hkey⟩ := (h _ _).1 (Index.find?_eq_some_iff.1 hfind)
    have hne : i ≠ s.nextSlot := by
      intro heq
      rw [heq, hs.regionAt?_nextSlot] at hp
      cases hp
    have hold : (s.store r).regionAt? i = some p := by rw [hs.regionAt?_store, if_neg hne, hp]
    have hnew : (s.store r).regionAt? s.nextSlot = some r := by
      rw [hs.regionAt?_store, if_pos rfl]
    exact absurd (hafter.slot_unique hold hnew hkey) hne

theorem store_eq (h : s.Coherent) (hafter : (s.store r).Coherent) (hage : (s.store r).age ≤ top) :
    store s r = .ok (s.store r) := by
  have hstart := hafter.byStart
  rw [byStart_store] at hstart
  have hplace := hafter.byPlace
  rw [byPlace_store] at hplace
  have hcount := age_store s r
  rw [hcount] at hage
  simp only [store, freshSlot_eq h, freshKey_eq h h.byStart hstart,
    freshKey_eq h h.byPlace hplace, add_eq hage, ok_bind, ← hcount]

/-- The bytes of a region that leaves are added to the spare bytes of another one. Both together
end below the top, as the space that is left says. -/
theorem release_eq (h : s.Sound) (hr : s.regionAt? slot = some r)
    (hage : (s.release slot).age ≤ top) : release s slot = .ok (s.release slot) := by
  have hafter := sound_release h slot
  have hcount : (s.release slot).age = s.age + 1 := age_release hr
  rw [hcount] at hage
  simp only [release, regionAt_eq hr, add_eq hage, ok_bind]
  rw [show ({ s.vacate slot r with age := s.age + 1 } : Space) = s.vacate slot r from rfl]
  simp only [Space.release, hr] at hafter ⊢
  cases hbelow : (s.vacate slot r).byPlace.below? r.place with
  | none => rfl
  | some before =>
    obtain ⟨k, i⟩ := before
    obtain ⟨⟨hin, -⟩, -⟩ := Index.below?_eq_some_iff.1 hbelow
    obtain ⟨p, hp, -⟩ := ((coherent_vacate h.coherent hr).byPlace k i).1 hin
    simp only [hbelow] at hafter
    have hgrown : ((s.vacate slot r).adjust i
        fun p => { p with spare := p.spare + (r.size + r.spare) }).regionAt? i =
          some { p with spare := p.spare + (r.size + r.spare) } := by
      rw [regionAt?_adjust_self, hp]
      rfl
    have hroom := (hafter.bounds hgrown).2
    simp only at hroom
    have hfreed : r.size + r.spare ≤ top := by omega
    have hspare : p.spare + (r.size + r.spare) ≤ top := by omega
    simp only [add_eq hfreed, regionAt_eq hp, add_eq hspare, ok_bind]
    exact congrArg Except.ok (adjust_congr hp rfl)

theorem releaseAll_eq {slots : List Nat} (h : s.Sound) (hnodup : slots.Nodup)
    (hlive : ∀ i ∈ slots, ∃ r, s.regionAt? i = some r) (hage : (s.releaseAll slots).age ≤ top) :
    releaseAll s slots = .ok (s.releaseAll slots) := by
  rw [age_releaseAll hnodup hlive] at hage
  induction slots generalizing s with
  | nil => rfl
  | cons slot rest ih =>
    obtain ⟨r, hr⟩ := hlive slot List.mem_cons_self
    have hcount := age_release hr
    rw [List.length_cons] at hage
    rw [releaseAll, List.foldlM_cons, release_eq h hr (by omega), ok_bind]
    exact ih (sound_release h slot) (List.nodup_cons.1 hnodup).2 (live_release hnodup hlive)
      (by omega)

/-! ## Placement -/

theorem gapBehind?_eq {page : Nat} (hpage : page = 0 ∨ isPowerOfTwo page = true)
    (hroom : r.placeEnd + r.spare ≤ top) (size offset slot : Nat) :
    gapBehind? page size offset slot r = .ok (Space.gapBehind? page size offset slot r) := by
  have hend : r.placeEnd ≤ top := by omega
  simp only [gapBehind?, Space.gapBehind?, placeEnd_eq hend, add_eq hroom, ok_bind,
    alignedFrom_eq hpage hend]
  cases Unslide.alignedFrom page offset r.placeEnd with
  | none => rfl
  | some place =>
    simp only [add?]
    by_cases hstop : place + size ≤ top
    · simp only [hstop, if_true, true_and]
      split
      · rename_i hfits
        simp only [sub_eq hfits, ok_bind]
      · rfl
    · simp only [hstop, if_false, false_and]

theorem gapAmong?_eq (h : s.Sound) (size offset : Nat) {slots : List Nat}
    (hlive : ∀ i ∈ slots, ∃ r, s.regionAt? i = some r) :
    gapAmong? s size offset slots = .ok (slots.findSome? fun slot =>
      match s.regionAt? slot with
      | none => none
      | some r => Space.gapBehind? s.page size offset slot r) := by
  induction slots with
  | nil => rfl
  | cons slot rest ih =>
    obtain ⟨r, hr⟩ := hlive slot List.mem_cons_self
    have hrest := ih fun i hi => hlive i (List.mem_cons_of_mem _ hi)
    simp only [gapAmong?, regionAt_eq hr, gapBehind?_eq h.page (h.bounds hr).2, ok_bind,
      List.findSome?_cons, hr]
    cases Space.gapBehind? s.page size offset slot r with
    | some gap => rfl
    | none => exact hrest

theorem firstGap?_eq (h : s.Sound) (size offset : Nat) :
    firstGap? s size offset = .ok (s.firstGap? size offset) :=
  gapAmong?_eq h size offset fun _ hi => h.coherent.byPlace.exists_of_mem_values hi

theorem regionNotes_eq (h : s.Sound) {slots : List Nat}
    (hlive : ∀ i ∈ slots, ∃ r, s.regionAt? i = some r) :
    regionNotes s slots = .ok ((slots.filterMap s.regionAt?).map .layoutRegion) := by
  induction slots with
  | nil => rfl
  | cons slot rest ih =>
    obtain ⟨r, hr⟩ := hlive slot List.mem_cons_self
    have hrest := ih fun i hi => hlive i (List.mem_cons_of_mem _ hi)
    obtain ⟨hstop, hroom⟩ := h.bounds hr
    have hend : r.placeEnd ≤ top := by omega
    simp only [regionNotes, regionAt_eq hr, stop_eq hstop, placeEnd_eq hend, hrest, ok_bind,
      List.filterMap_cons, hr, List.map_cons]

theorem layoutNotes_eq (h : s.Sound) : layoutNotes s = .ok s.layoutNotes := by
  simp only [layoutNotes, regionNotes_eq h fun _ hi => h.coherent.byPlace.exists_of_mem_values hi,
    ok_bind]
  rfl

/-- The page offset of an address is in front of it, so that the bytes of a region and its page
offset end where the region ends, or before. -/
theorem needed_le (hv : q.Valid) (page : Nat) : q.size + Unslide.pageOffset page q.start ≤ top := by
  have hoffset := pageOffset_le page q.start
  have hstop := hv.2
  simp only [Request.stop] at hstop
  omega

theorem settle_eq (h : s.Sound) (hv : q.Valid) (hfree : ∀ b ∈ s.blocks, ¬ b.Meets q.region)
    (hage : (s.settle q.region).state.age ≤ top) :
    settle s q.region = .ok (s.settle q.region) := by
  -- that both keys of the new region are free is told by the space behind the placement
  have hafter := (settle_obeys h hv hfree).sound.coherent
  have hneeded : q.region.size + Unslide.pageOffset s.page q.region.start ≤ top :=
    needed_le hv s.page
  simp only [settle, pageOffset_eq h.page, add_eq hneeded, ok_bind]
  simp only [Space.settle, Nat.not_lt.2 hneeded, if_false] at hafter hage ⊢
  cases hfirst : s.byPlace.first? with
  | none =>
    simp only [hfirst] at hafter hage ⊢
    simp only [sub_eq hneeded, store_eq h.coherent hafter hage, ok_bind]
  | some first =>
    simp only [hfirst] at hafter hage ⊢
    by_cases hroom : q.region.size + Unslide.pageOffset s.page q.region.start ≤ first.1
    · simp only [hroom, if_true] at hafter hage ⊢
      simp only [sub_eq hroom, store_eq h.coherent hafter hage, ok_bind]
    · simp only [hroom, if_false, firstGap?_eq h, ok_bind] at hafter hage ⊢
      cases hgap : s.firstGap? q.region.size (Unslide.pageOffset s.page q.region.start) with
      | none =>
        simp only [layoutNotes_eq h, ok_bind]
      | some gap =>
        simp only [hgap] at hafter hage ⊢
        obtain ⟨i, p, hp, hfound, -⟩ := firstGap?_spec h hgap
        obtain ⟨rfl, hfloor, -, hle, -⟩ := gapBehind?_least hfound
        have hend : p.placeEnd ≤ top := by
          have := (h.bounds hp).2
          omega
        have hfit : gap.floor ≤ gap.place := by
          rw [hfloor]
          exact hle
        have hopened : (s.adjust gap.slot fun p =>
            { p with spare := gap.place - gap.floor }).Coherent :=
          coherent_adjust h.coherent (fun _ => rfl) (fun _ => rfl)
        simp only [regionAt_eq hp, placeEnd_eq hend, ← hfloor, sub_eq hfit,
          store_eq hopened hafter hage, ok_bind]

/-- A request that ends one byte past the top is not valid. Placing it would overflow. -/
example : settle (aligned 4096) (Request.region ⟨0xfff, 0xfffffffffffff001, 1, 0⟩) =
    .error (.overflow 0xfffffffffffff001 0xfff) := rfl

/-! ## Reservations -/

theorem isValid_eq (q : Request) : isValid q = decide q.Valid := by
  simp only [isValid, add?, Request.Valid, Request.stop]
  split <;> simp [*, bne, BEq.beq]

theorem touchingBelow_eq (h : s.Sound) (hr : r.stop ≤ top) :
    touchingBelow s r = .ok (match s.byStart.below? r.start with
      | none => []
      | some (_, slot) =>
        match s.regionAt? slot with
        | none => []
        | some p => if p.Meets r then [slot] else []) := by
  simp only [touchingBelow]
  cases hbelow : s.byStart.below? r.start with
  | none => rfl
  | some before =>
    obtain ⟨k, i⟩ := before
    obtain ⟨⟨hin, -⟩, -⟩ := Index.below?_eq_some_iff.1 hbelow
    obtain ⟨p, hp, -⟩ := (h.coherent.byStart k i).1 hin
    simp only [regionAt_eq hp, meets_eq (h.bounds hp).1 hr, ok_bind, decide_eq_true_eq, hp]

theorem touching_eq (h : s.Sound) (hr : r.stop ≤ top) : touching s r = .ok (s.touching r) := by
  simp only [touching, touchingBelow_eq h hr, stop_eq hr, ok_bind]
  rfl

theorem covering?_eq (h : s.Sound) (hv : q.Valid) {slots : List Nat}
    (hlive : ∀ i ∈ slots, ∃ r, s.regionAt? i = some r) :
    covering? s slots q = .ok (s.covering? slots q) := by
  match slots with
  | [] => rfl
  | [slot] =>
    obtain ⟨r, hr⟩ := hlive slot List.mem_cons_self
    have hq : q.region.stop ≤ top := hv.2
    simp only [covering?, Space.covering?, regionAt_eq hr, covers_eq (h.bounds hr).1 hq, ok_bind,
      decide_eq_true_eq, hr]
  | _ :: _ :: _ => rfl

theorem reserveFree_eq (h : s.Sound) (hage : (s.reserveFree q).state.age ≤ top) :
    reserveFree s q = .ok (s.reserveFree q) := by
  simp only [reserveFree, Space.reserveFree, isValid_eq, decide_eq_true_eq] at hage ⊢
  by_cases hv : q.Valid
  · have hq : q.region.stop ≤ top := hv.2
    simp only [hv, if_true, not_true_eq_false, if_false, touching_eq h hq, ok_bind] at hage ⊢
    cases hslots : s.touching q.region with
    | nil =>
      simp only [hslots] at hage ⊢
      exact settle_eq h hv (free_of_touching_nil h hslots) hage
    | cons slot more => rfl
  · simp only [hv, if_false, not_false_eq_true, if_true]

theorem reserveEach_eq (qs : List Request) : ∀ {s : Space}, s.Sound →
    (s.reserveEach qs).state.age ≤ top → reserveEach s qs = .ok (s.reserveEach qs) := by
  induction qs with
  | nil =>
    intro s _ _
    rfl
  | cons q rest ih =>
    intro s h hage
    simp only [Space.reserveEach] at hage ⊢
    cases hanswer : (s.reserveFree q).answer with
    | error e =>
      simp only [hanswer] at hage ⊢
      simp only [reserveEach, reserveFree_eq h hage, ok_bind, hanswer]
    | ok _ =>
      simp only [hanswer, Step.after_state] at hage ⊢
      have hfirst := Nat.le_trans (age_le_reserveEach (s.reserveFree q).state rest) hage
      have hothers := ih (sound_reserveFree h q) hage
      simp only [reserveEach, reserveFree_eq h hfirst, ok_bind, hanswer, hothers]

theorem cutsOnPages_eq {page : Nat} (hbehind : q.start - old.start + q.size ≤ top) :
    cutsOnPages page (q.start - old.start) q.size = .ok (decide (CutsOnPages page old q)) := by
  simp only [cutsOnPages, CutsOnPages]
  split
  · simp [*]
  · split
    · simp [*, add_eq hbehind, ok_bind]
    · simp [*]

theorem carve_eq (h : s.Sound) (hv : q.Valid) (hr : s.regionAt? slot = some old)
    (henc : old.Encloses q) (hage : (s.carve slot old q).state.age ≤ top) :
    carve s slot old q = .ok (s.carve slot old q) := by
  obtain ⟨hstop, -⟩ := h.bounds hr
  obtain ⟨⟨hlow, hhigh⟩, -⟩ := henc
  have hhead : old.start ≤ q.start := hlow
  have hinner : q.start + q.size ≤ top := hv.2
  have htail : q.start + q.size ≤ old.stop := hhigh
  have hbehind : q.start - old.start + q.size ≤ top := by omega
  simp only [carve, sub_eq hhead, stop_eq hstop, add_eq hinner, sub_eq htail,
    cutsOnPages_eq hbehind, ok_bind, decide_eq_true_eq]
  simp only [Space.carve] at hage ⊢
  by_cases hcuts : CutsOnPages s.page old q
  · simp only [hcuts, if_true, Step.after_state] at hage ⊢
    have hreleased := Nat.le_trans (age_le_reserveEach (s.release slot) (Space.pieces old q)) hage
    have hpieces : pieces old q (q.start - old.start) (old.stop - (q.start + q.size)) =
        .ok (Space.pieces old q) := by
      simp only [pieces, add_eq hinner, add_eq hbehind, ok_bind]
      rfl
    simp only [release_eq h hr hreleased, hpieces, reserveEach_eq _ (sound_release h slot) hage,
      ok_bind]
  · simp only [hcuts, if_false]

/-- The regions that a request meets make room, each from a live slot of its own, and nothing is left
in its way. -/
theorem evict_eq (h : s.Sound) (hv : q.Valid)
    (hage : ((s.releaseAll (s.touching q.region)).settle q.region).state.age ≤ top) :
    (do
      let left ← releaseAll s (s.touching q.region)
      settle left q.region) = .ok ((s.releaseAll (s.touching q.region)).settle q.region) := by
  have hlive : ∀ i ∈ s.touching q.region, ∃ r, s.regionAt? i = some r :=
    fun _ => exists_of_mem_touching h
  have hreleased := Nat.le_trans (age_le_settle (s.releaseAll (s.touching q.region)) q.region) hage
  have hfree : ∀ b ∈ (s.releaseAll (s.touching q.region)).blocks, ¬ b.Meets q.region := by
    rw [blocks_releaseAll_touching h]
    exact fun b hb => hb.2
  simp only [releaseAll_eq h (touching_nodup h) hlive hreleased, ok_bind,
    settle_eq (sound_releaseAll h _) hv hfree hage]

theorem reserve_eq (h : s.Sound) {replace : Bool} (hage : (s.reserve q replace).state.age ≤ top) :
    reserve s q replace = .ok (s.reserve q replace) := by
  simp only [reserve, Space.reserve, isValid_eq, decide_eq_true_eq] at hage ⊢
  by_cases hv : q.Valid
  · have hq : q.region.stop ≤ top := hv.2
    have hcovering := covering?_eq h hv fun _ => exists_of_mem_touching (r := q.region) h
    have hevict := evict_eq h hv
    simp only [hv, if_true, not_true_eq_false, if_false, touching_eq h hq, ok_bind] at hage ⊢
    cases hslots : s.touching q.region with
    | nil =>
      simp only [hslots] at hage ⊢
      exact settle_eq h hv (free_of_touching_nil h hslots) hage
    | cons slot more =>
      rw [hslots] at hcovering hevict
      simp only [hslots] at hage ⊢
      cases replace with
      | false => rfl
      | true =>
        simp only [Bool.true_eq_false, if_false, hcovering, ok_bind] at hage ⊢
        cases hfound : s.covering? (slot :: more) q with
        | none =>
          simp only [hfound] at hage ⊢
          exact hevict hage
        | some found =>
          obtain ⟨i, old⟩ := found
          simp only [hfound] at hage ⊢
          obtain ⟨-, hr, henc⟩ := covering?_eq_some hfound
          exact carve_eq h hv hr henc hage
  · simp only [hv, if_false, not_false_eq_true, if_true]

theorem perform_eq (h : s.Sound) {c : Call} (hage : (s.perform c).age ≤ top) :
    perform s c = .ok (s.perform c) := by
  cases c with
  | reserve q replace =>
    have hreserve := reserve_eq h hage
    simp only [perform, hreserve, ok_bind, Space.perform]
  | setPage alignment => rfl

theorem performAll_eq (h : s.Reachable) {calls : List Call}
    (hage : (s.performAll calls).age ≤ top) : performAll s calls = .ok (s.performAll calls) := by
  induction calls generalizing s with
  | nil => rfl
  | cons c rest ih =>
    have hnext := reachable_perform h c
    have hgrown := age_performAll hnext rest
    have hfirst : (s.perform c).age ≤ top := by
      have : ((s.perform c).performAll rest).age ≤ top := hage
      omega
    rw [performAll, List.foldlM_cons, perform_eq (sound_of_reachable h) hfirst, ok_bind]
    exact ih hnext hage

/-! ## Look-ups -/

theorem locate?_eq (h : s.Sound) (addr : Nat) : locate? s addr = .ok (s.locate? addr) := by
  simp only [locate?, Space.locate?]
  cases hnear : s.byStart.upTo? addr with
  | none => rfl
  | some entry =>
    obtain ⟨k, i⟩ := entry
    obtain ⟨⟨hin, -⟩, -⟩ := Index.upTo?_eq_some_iff.1 hnear
    obtain ⟨r, hr, -⟩ := (h.coherent.byStart k i).1 hin
    obtain ⟨hstop, hroom⟩ := h.bounds hr
    simp only [regionAt_eq hr, contains_eq hstop, ok_bind, decide_eq_true_eq, hr]
    split
    · rename_i hc
      obtain ⟨hlow, hhigh⟩ := Region.contains_iff.1 hc
      have hplace : r.place + (addr - r.start) ≤ top := by
        simp only [Region.placeEnd] at hroom
        omega
      simp only [sub_eq hlow, add_eq hplace, ok_bind]
      rfl
    · rfl

theorem attribute?_eq (h : s.Sound) (addr : Nat) (handle : Handle) :
    attribute? s addr handle = .ok (s.attribute? addr handle) := by
  simp only [attribute?, Space.attribute?]
  split
  · rfl
  · cases hr : s.regionAt? handle.slot with
    | none => rfl
    | some r =>
      simp only [contains_eq (h.bounds hr).1, ok_bind, decide_eq_true_eq]
      split
      · rename_i hc
        simp only [sub_eq hc.1, ok_bind]
        rfl
      · rfl

/-- The last region ends behind the start of the first, so that the difference does not wrap. -/
theorem extent_eq (h : s.Sound) : extent s = .ok s.extent := by
  simp only [extent, Space.extent]
  cases hfirst : s.byPlace.first? with
  | none => rfl
  | some first =>
    cases hlast : s.byPlace.last? with
    | none => rfl
    | some last =>
      obtain ⟨k, i⟩ := last
      have hin : (k, i) ∈ s.byPlace.entries := List.mem_of_getLast? hlast
      obtain ⟨r, hr, hplace⟩ := (h.coherent.byPlace k i).1 hin
      have hroom := (h.bounds hr).2
      have hend : r.placeEnd ≤ top := by omega
      have hle := (Index.first?_eq_some_iff.1 hfirst).2 (k, i) hin
      have hspan : first.1 ≤ r.placeEnd := by
        simp only [Region.placeEnd]
        simp only at hle
        omega
      simp only [regionAt_eq hr, placeEnd_eq hend, ok_bind, wrapSub_eq hend hspan, hr]

end Machine

namespace Space

/-- The machine does with the space what the library says, and stops with no fault. -/
structure Faultless (s : Space) : Prop where
  /-- A reservation, as long as insertions and removals can be counted. -/
  reserve : ∀ q replace, (s.reserve q replace).state.age ≤ top →
    Machine.reserve s q replace = .ok (s.reserve q replace)
  performAll : ∀ calls, (s.performAll calls).age ≤ top →
    Machine.performAll s calls = .ok (s.performAll calls)
  locate : ∀ addr, Machine.locate? s addr = .ok (s.locate? addr)
  origin : ∀ addr handle, Machine.attribute? s addr handle = .ok (s.attribute? addr handle)
  extent : Machine.extent s = .ok s.extent
  layout : Machine.layoutNotes s = .ok s.layoutNotes

/-- **No fault.** In every space that a process can have, all operations come out on the machine as
with natural numbers, whatever they are asked: no word overflows or falls below zero, every slot
that an index leads to is live, and no entry is put over another one. Only how often regions were
inserted and removed has no bound of its own; it has to be a word. -/
theorem faultless_of_reachable {s : Space} (h : s.Reachable) : s.Faultless := by
  have hs := sound_of_reachable h
  refine ⟨?_, ?_, Machine.locate?_eq hs, Machine.attribute?_eq hs, Machine.extent_eq hs,
    Machine.layoutNotes_eq hs⟩
  · intro q replace hage
    exact Machine.reserve_eq hs hage
  · intro calls hage
    exact Machine.performAll_eq h hage

/-- One region fills the address space, and all of it but its ends is taken by another one. -/
theorem faultless_filled :
    let s := ((aligned 4096).reserve ⟨0, top, 1, 0⟩ false).state
    let q : Request := ⟨0x1000, 0xffffffffffffd000, 2, 0⟩
    s.Reachable ∧ s.Faultless ∧ (s.reserve q true).state.age = 5 ∧
      Machine.reserve s q true = .ok (s.reserve q true) ∧
      (s.reserve q true).state.regions = [⟨0, 0x1000, 0, 1, 0, 0⟩,
        ⟨0x1000, 0xffffffffffffd000, 0x1000, 2, 0, 0⟩,
        ⟨0xffffffffffffe000, 0x1fff, 0xffffffffffffe000, 1, 0xffffffffffffe000, 0⟩] := by
  intro s q
  have hs : s.Reachable := .reserve ⟨0, top, 1, 0⟩ false (.aligned 4096)
  have hcount : (s.reserve q true).state.age = 5 := by decide
  have hfault := faultless_of_reachable hs
  have hage : (s.reserve q true).state.age ≤ top := by
    rw [hcount]
    decide
  exact ⟨hs, hfault, hcount, hfault.reserve q true hage, by decide⟩

end Space
end Unslide
