import Unslide.Proofs.Space.Reservation

/-!
# Unslide.Proofs.Space.Reachable

The spaces that a process can have, and what holds of all of them. A space is made empty and then
changed by reservations, granted or refused, and by settings of its page size (`Reachable`). In
every one of them slots, indexes, vacant slots and spare bytes are in step (`Consistent`).

* `sound_of_reachable`: the invariant that the reservation law rests on.
* `consistent_of_reachable`: what it means for the arena, the indexes and the order of the regions.
-/

namespace Unslide
namespace Space

inductive Reachable : Space → Prop where
  | fresh : Reachable (empty 0)
  | aligned (alignment : Nat) : Reachable (aligned alignment)
  | reserve {s : Space} (q : Request) (replace : Bool) :
      Reachable s → Reachable (s.reserve q replace).state
  | setPage {s : Space} (alignment : Nat) : Reachable s → Reachable (s.setPage alignment).state

/-- Each region with its spare bytes ends where the next one starts, the last one at the top. -/
def Chained : List Region → Prop
  | [] => True
  | [r] => r.place + r.size + r.spare = top
  | r :: q :: rest => r.place + r.size + r.spare = q.place ∧ Chained (q :: rest)

/-- Slots, indexes, vacant slots and spare bytes are in step. -/
structure Consistent (s : Space) : Prop where
  page : s.page = 0 ∨ ∃ k, s.page = Nat.pow 2 k
  disjoint : ∀ i j r q, s.regionAt? i = some r → s.regionAt? j = some q → i ≠ j →
    r.start + r.size ≤ q.start ∨ q.start + q.size ≤ r.start
  chained : Chained s.regions
  /-- `byStart` lists every live slot, once and under the real start of its region. -/
  byStart : s.byStart.values.Nodup ∧
    ∀ k slot, (k, slot) ∈ s.byStart.entries ↔ ∃ r, s.regionAt? slot = some r ∧ r.start = k
  /-- `byPlace` lists every live slot, once and under the synthetic start of its region. -/
  byPlace : s.byPlace.values.Nodup ∧
    ∀ k slot, (k, slot) ∈ s.byPlace.entries ↔ ∃ r, s.regionAt? slot = some r ∧ r.place = k
  /-- `vacant` lists every empty slot, once, and nothing else. -/
  vacant : s.vacant.Nodup ∧ ∀ slot, slot ∈ s.vacant ↔ s.slots[slot]? = some none
  offsets : s.page ≠ 0 → ∀ slot r, s.regionAt? slot = some r →
    r.place % s.page = r.start % s.page

variable {s : Space}

theorem live_of_isEmpty (h : s.Coherent) (hempty : s.isEmpty = true) : s.live = ∅ := by
  refine Set.eq_empty_iff_forall_notMem.2 ?_
  rintro r ⟨slot, hr⟩
  have hin := (h.byStart r.start slot).2 ⟨r, hr, rfl⟩
  simp only [isEmpty, Index.isEmpty, List.isEmpty_iff] at hempty
  rw [hempty] at hin
  cases hin

theorem sound_setPage (h : s.Sound) (alignment : Nat) : (s.setPage alignment).state.Sound := by
  simp only [setPage]
  split
  · rename_i hempty
    have hlive := live_of_isEmpty h.coherent hempty
    have hnone : ∀ b, b ∉ s.blocks := by
      intro b hb
      obtain ⟨r, hr, -⟩ := mem_blocks_iff_live.1 hb
      rw [hlive] at hr
      cases hr
    obtain ⟨hstart, hplace, hnodup, hvacant⟩ := h.coherent
    exact ⟨isPowerOfTwo_pageSize alignment, ⟨hstart, hplace, hnodup, hvacant⟩, h.tiled, h.valid,
      h.apart, fun b hb => absurd hb (hnone b)⟩
  · exact h

theorem sound_of_reachable (h : s.Reachable) : s.Sound := by
  induction h with
  | fresh => exact sound_aligned 0
  | aligned alignment => exact sound_aligned alignment
  | reserve q replace _ ih => exact (reserve_obeys ih q replace).sound
  | setPage alignment _ ih => exact sound_setPage ih alignment

/-! ## The regions in order -/

theorem mem_regions (h : s.Sound) {r : Region} : r ∈ s.regions ↔ r ∈ s.live :=
  h.coherent.byPlace.mem_regions

theorem regions_ascending (h : s.Sound) : s.regions.Pairwise (fun a b => a.place < b.place) :=
  h.coherent.byPlace.regions_ascending

theorem mem_regionsByStart (h : s.Sound) {r : Region} : r ∈ s.regionsByStart ↔ r ∈ s.live :=
  h.coherent.byStart.mem_regions

theorem regionsByStart_ascending (h : s.Sound) :
    s.regionsByStart.Pairwise (fun a b => a.start < b.start) :=
  h.coherent.byStart.regions_ascending

/-- The end of a tiled set of regions, in order. By induction on what is left of it: a region that
is not left lies in front of all that are. -/
theorem chained_of_tiled {L : Set Region} (h : Tiled L) (l : List Region) :
    l.Pairwise (fun a b => a.place < b.place) → (∀ r ∈ l, r ∈ L) →
      (∀ q ∈ L, q ∈ l ∨ ∀ r ∈ l, q.place < r.place) → Chained l := by
  induction l with
  | nil => exact fun _ _ _ => trivial
  | cons r rest ih =>
    intro hasc hsub hfront
    rw [List.pairwise_cons] at hasc
    have hr : r ∈ L := hsub r (by simp)
    have hlt := h.place_lt_reach hr
    have hcut : ∀ q ∈ L, q ∈ rest ∨ ∀ c ∈ rest, q.place < c.place := by
      intro q hq
      rcases hfront q hq with hin | hbefore
      · rcases List.mem_cons.1 hin with rfl | hin
        · exact .inr hasc.1
        · exact .inl hin
      · exact .inr fun c hc => hbefore c (by simp [hc])
    have hnext : ∀ q ∈ L, q.place = r.reach → q ∈ rest := by
      intro q hq heq
      rcases hfront q hq with hin | hbefore
      · rcases List.mem_cons.1 hin with rfl | hin
        · omega
        · exact hin
      · have := hbefore r (by simp)
        omega
    cases rest with
    | nil =>
      rcases h.closed r hr with htop | ⟨q, hq, heq⟩
      · exact htop
      · cases hnext q hq heq
    | cons c rest =>
      refine ⟨?_, ih hasc.2 (fun q hq => hsub q (by simp [hq])) hcut⟩
      have hc : c ∈ L := hsub c (by simp)
      have hle := h.next r hr c hc (hasc.1 c (by simp))
      rcases h.closed r hr with htop | ⟨q, hq, heq⟩
      · have := h.place_lt_reach hc
        have := h.reach_le c hc
        omega
      · rcases List.mem_cons.1 (hnext q hq heq) with rfl | hin
        · exact heq.symm
        · have := (List.pairwise_cons.1 hasc.2).1 q hin
          omega

theorem chained_regions (h : s.Sound) : Chained s.regions :=
  chained_of_tiled h.tiled _ (regions_ascending h) (fun _ hr => (mem_regions h).1 hr)
    (fun _ hq => .inl ((mem_regions h).2 hq))

/-- Whatever reservations and settings of the page size a space has been through, its slots,
indexes, vacant slots and spare bytes are in step. -/
theorem consistent_of_reachable (h : s.Reachable) : s.Consistent := by
  have hs := sound_of_reachable h
  have hc := hs.coherent
  refine ⟨?_, ?_, chained_regions hs, ⟨hc.byStart.values_nodup, hc.byStart⟩,
    ⟨hc.byPlace.values_nodup, hc.byPlace⟩, ⟨hc.vacant_nodup, hc.mem_vacant⟩, ?_⟩
  · rcases hs.page with hpage | hpage
    · exact .inl hpage
    · exact .inr (isPowerOfTwo_iff.1 hpage)
  · intro i j r q hr hq hne
    by_contra hmeets
    simp only [not_or, Nat.not_le] at hmeets
    have heq := hs.apart _ (mem_blocks_of_regionAt? hr) _ (mem_blocks_of_regionAt? hq)
      ⟨hmeets.2, hmeets.1⟩
    have hstart : r.bare.start = q.bare.start := congrArg Region.start heq
    exact hne (hc.slot_unique hr hq hstart)
  · intro hpage slot r hr
    have hoff := hs.offsets _ (mem_blocks_of_regionAt? hr)
    simpa [pageOffset, hpage] using hoff

/-- A space in which a region was cut into three pieces. -/
theorem consistent_after_carving :
    let s := (((aligned 4096).reserve ⟨0x10000, 0x4000, 1, 0⟩ false).state.reserve
      ⟨0x11000, 0x1000, 2, 0⟩ true).state
    s.Reachable ∧ s.regions.length = 3 ∧ s.Consistent := by
  have h := Reachable.reserve ⟨0x11000, 0x1000, 2, 0⟩ true
    (.reserve ⟨0x10000, 0x4000, 1, 0⟩ false (.aligned 4096))
  exact ⟨h, by decide, consistent_of_reachable h⟩

end Space
end Unslide
