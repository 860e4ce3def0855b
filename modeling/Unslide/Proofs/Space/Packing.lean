import Mathlib.Algebra.BigOperators.Group.List.Basic
import Mathlib.Algebra.BigOperators.Ring.List
import Mathlib.Algebra.Ring.Nat
import Unslide.Proofs.Space.Reachable

/-!
# Unslide.Proofs.Space.Packing

Spaces without holes. All regions lie at one offset in their pages and are whole pages long, and
their images lie side by side (`Packs`). Then the images end where the sizes of all regions together
say, and there is always room behind them: the real intervals do not meet, so that together with one
more they fit below the top, and the images are no longer than they are.

* `sum_sizes_le`, `sum_sizes_of_takes`: real intervals that do not meet, and images in a row.
* `Packs.room_behind`: there is room for one more.
* `Packs.packed`: the bytes that are taken, and how far they extend.
-/

namespace Unslide

/-- What a space counts in: its pages, or single bytes if it keeps no page offsets. -/
def grain (page : Nat) : Nat := if page = 0 then 1 else page

/-- Whole grains, at the offset of `o` in its grain. -/
structure Request.Granular (q : Request) (grain o : Nat) : Prop where
  start : q.start % grain = o % grain
  size : grain ∣ q.size
  valid : q.Valid

theorem pageOffset_eq_mod (page addr : Nat) : pageOffset page addr = addr % grain page := by
  simp only [pageOffset, grain]
  split
  · exact (Nat.mod_one addr).symm
  · rfl

namespace Space

/-- A block takes the synthetic byte. -/
def Takes (B : Set Region) (m : Nat) : Prop := ∃ b ∈ B, b.place ≤ m ∧ m < b.placeEnd

/-- The sizes of all regions together. -/
def total (s : Space) : Nat := (s.regions.map Region.size).sum

/-- The synthetic intervals of the regions lie side by side from `lo` on. -/
structure Packed (s : Space) (lo : Nat) : Prop where
  tiles : ∀ m, Takes s.blocks m ↔ lo ≤ m ∧ m < lo + s.total
  apart : ∀ a ∈ s.blocks, ∀ b ∈ s.blocks, a ≠ b → a.placeEnd ≤ b.place ∨ b.placeEnd ≤ a.place
  extent : s.extent = s.total

/-- What a history of whole grains keeps. The images of the regions end at `hi`. -/
structure Packs (s : Space) (o hi : Nat) : Prop where
  sound : s.Sound
  starts : ∀ b ∈ s.blocks, b.start % grain s.page = o % grain s.page
  sizes : ∀ b ∈ s.blocks, grain s.page ∣ b.size
  takes : ∀ m, Takes s.blocks m ↔ o % grain s.page ≤ m ∧ m < hi
  le : o % grain s.page ≤ hi

variable {s : Space} {q : Request} {o lo hi m : Nat} {b : Region} {B : Set Region}
  {l : List Region}

/-- A block takes its first byte and its last. -/
theorem takes_ends (hb : b ∈ B) (hpos : 0 < b.size) :
    Takes B b.place ∧ Takes B (b.placeEnd - 1) := by
  refine ⟨⟨b, hb, Nat.le_refl _, Nat.lt_add_of_pos_right hpos⟩, b, hb, ?_⟩
  simp only [Region.placeEnd]
  omega

/-! ## Sums of sizes -/

/-- Real intervals in a row take no more than the room that they lie in. -/
theorem sum_sizes_le (hrow : l.Pairwise (fun a b => a.stop ≤ b.start))
    (hin : ∀ r ∈ l, lo ≤ r.start ∧ r.stop ≤ hi) (hle : lo ≤ hi) :
    lo + (l.map Region.size).sum ≤ hi := by
  induction l generalizing lo with
  | nil => simpa using hle
  | cons r rest ih =>
    rw [List.pairwise_cons] at hrow
    obtain ⟨hstart, hstop⟩ := hin r List.mem_cons_self
    have hrest := ih hrow.2 (fun c hc => ⟨hrow.1 c hc, (hin c (List.mem_cons_of_mem _ hc)).2⟩) hstop
    simp only [Region.stop] at hrest
    rw [List.map_cons, List.sum_cons]
    omega

/-- Synthetic intervals in a row that take every byte from `lo` to `hi` and no other add up to
that. -/
theorem sum_sizes_of_takes (hrow : l.Pairwise (fun a b => a.placeEnd ≤ b.place))
    (hpos : ∀ r ∈ l, 0 < r.size) (htakes : ∀ m, Takes {r | r ∈ l} m ↔ lo ≤ m ∧ m < hi)
    (hle : lo ≤ hi) : lo + (l.map Region.size).sum = hi := by
  induction l generalizing lo with
  | nil =>
    have hnone : ¬ Takes {r | r ∈ ([] : List Region)} lo := by
      rintro ⟨b, hb, -⟩
      cases hb
    rw [htakes] at hnone
    simp only [List.map_nil, List.sum_nil]
    omega
  | cons r rest ih =>
    rw [List.pairwise_cons] at hrow
    have hrpos := hpos r List.mem_cons_self
    have hr : r ∈ {c | c ∈ r :: rest} := List.mem_cons_self
    have hends := takes_ends hr hrpos
    rw [htakes, htakes] at hends
    -- the byte at `lo` cannot be taken behind `r`
    have hplace : r.place = lo := by
      obtain ⟨b, hb, hlow, hhigh⟩ := (htakes lo).2 (by omega)
      rcases List.mem_cons.1 hb with rfl | hb
      · omega
      · have hbehind := hrow.1 b hb
        simp only [Region.placeEnd] at hbehind
        omega
    have hrest : ∀ m, Takes {c | c ∈ rest} m ↔ r.placeEnd ≤ m ∧ m < hi := by
      intro m
      constructor
      · rintro ⟨b, hb, hlow, hhigh⟩
        have hin := (htakes m).1 ⟨b, List.mem_cons_of_mem _ hb, hlow, hhigh⟩
        exact ⟨Nat.le_trans (hrow.1 b hb) hlow, hin.2⟩
      · rintro ⟨hlow, hhigh⟩
        have hlo : lo ≤ m := Nat.le_trans (hplace ▸ Nat.le_add_right _ _) hlow
        obtain ⟨b, hb, hin⟩ := (htakes m).2 ⟨hlo, hhigh⟩
        rcases List.mem_cons.1 hb with rfl | hb
        · omega
        · exact ⟨b, hb, hin⟩
    have hsum := ih hrow.2 (fun c hc => hpos c (List.mem_cons_of_mem _ hc)) hrest (by omega)
    simp only [Region.placeEnd] at hsum
    rw [List.map_cons, List.sum_cons]
    omega

theorem Sound.pos_of_mem_regions (h : s.Sound) {r : Region} (hr : r ∈ s.regions) : 0 < r.size :=
  h.tiled.pos r ((mem_regions h).1 hr)

theorem Sound.takes_regions (h : s.Sound) : Takes {r | r ∈ s.regions} m ↔ Takes s.blocks m := by
  simp only [Takes, mem_blocks_iff_live, Set.mem_ofPred_eq, mem_regions h]
  constructor
  · rintro ⟨r, hr, hin⟩
    exact ⟨r.bare, ⟨r, hr, rfl⟩, hin⟩
  · rintro ⟨_, ⟨r, hr, rfl⟩, hin⟩
    exact ⟨r, hr, hin⟩

theorem Sound.regions_in_row (h : s.Sound) :
    s.regions.Pairwise (fun a b => a.placeEnd ≤ b.place) := by
  refine (regions_ascending h).imp_of_mem ?_
  intro a b ha hb hlt
  have hnext := h.tiled.next a ((mem_regions h).1 ha) b ((mem_regions h).1 hb) hlt
  exact Nat.le_trans (Tiled.placeEnd_le_reach a) hnext

theorem total_eq_sum_by_start (h : s.Sound) :
    s.total = (s.regionsByStart.map Region.size).sum := by
  have hplaces : s.regions.Nodup := h.coherent.byPlace.regions_nodup
  have hstarts : s.regionsByStart.Nodup := h.coherent.byStart.regions_nodup
  refine List.Perm.sum_nat (List.Perm.map _ ?_)
  rw [List.perm_ext_iff_of_nodup hplaces hstarts]
  intro r
  rw [mem_regions h, mem_regionsByStart h]

theorem regionsByStart_in_row (h : s.Sound) :
    s.regionsByStart.Pairwise (fun a b => a.stop ≤ b.start) := by
  refine (regionsByStart_ascending h).imp_of_mem ?_
  intro a b ha hb hlt
  rw [mem_regionsByStart h] at ha hb
  by_contra hmeets
  have hbpos := h.tiled.pos b hb
  have heq := h.apart _ (mem_blocks_iff_live.2 ⟨a, ha, rfl⟩) _ (mem_blocks_iff_live.2 ⟨b, hb, rfl⟩)
    (by
      simp only [Region.Meets, Region.stop, Region.bare_start, Region.bare_size] at hmeets ⊢
      omega)
  have hstart : a.bare.start = b.bare.start := congrArg Region.start heq
  simp only [Region.bare_start] at hstart
  omega

/-- Every byte that is taken lies between the start of the first region and the end of the last. -/
theorem taken_between (h : s.Sound) {first last : Nat × Nat} {r : Region}
    (hfirst : s.byPlace.first? = some first) (hlast : s.byPlace.last? = some last)
    (hr : s.regionAt? last.2 = some r) (htaken : Takes s.blocks m) :
    first.1 ≤ m ∧ m < r.placeEnd := by
  obtain ⟨_, hb, hlow, hhigh⟩ := htaken
  obtain ⟨c, ⟨slot, hc⟩, rfl⟩ := mem_blocks_iff_live.1 hb
  obtain ⟨hlin, hmax⟩ := (Index.getLast?_eq_some_iff s.byPlace.ascending).1 hlast
  obtain ⟨r', hr', hplace⟩ := (h.coherent.byPlace _ _).1 hlin
  rw [hr] at hr'
  cases hr'
  have hin := (h.coherent.byPlace c.place slot).2 ⟨c, hc, rfl⟩
  have hcmin : first.1 ≤ c.place := (Index.first?_eq_some_iff.1 hfirst).2 _ hin
  have hcmax : c.place ≤ last.1 := hmax _ hin
  have hcend : m < c.placeEnd := hhigh
  refine ⟨Nat.le_trans hcmin hlow, ?_⟩
  rcases Nat.lt_or_ge c.place r.place with hlt | hge
  · have hnext := h.tiled.next c ⟨slot, hc⟩ r ⟨_, hr⟩ hlt
    have hreach := Tiled.placeEnd_le_reach c
    simp only [Region.placeEnd] at hcend hreach ⊢
    omega
  · rw [← h.tiled.inj c ⟨slot, hc⟩ r ⟨_, hr⟩ (by omega)]
    exact hcend

namespace Packs

/-- The images of the regions are as long as the regions together. -/
theorem end_eq (h : Packs s o hi) : o % grain s.page + s.total = hi :=
  sum_sizes_of_takes h.sound.regions_in_row (fun _ hr => h.sound.pos_of_mem_regions hr)
    (fun m => h.sound.takes_regions.trans (h.takes m)) h.le

theorem end_mod (h : Packs s o hi) : hi % grain s.page = o % grain s.page := by
  have hdvd : grain s.page ∣ s.total := by
    refine List.dvd_sum ?_
    intro n hn
    obtain ⟨r, hr, rfl⟩ := List.mem_map.1 hn
    exact h.sizes r.bare (mem_blocks_iff_live.2 ⟨r, (mem_regions h.sound).1 hr, rfl⟩)
  rw [← h.end_eq, Nat.add_mod, Nat.mod_eq_zero_of_dvd hdvd, Nat.add_zero, Nat.mod_mod, Nat.mod_mod]

theorem placeEnd_le (h : Packs s o hi) (hb : b ∈ s.blocks) : b.placeEnd ≤ hi := by
  have hends := takes_ends hb (h.sound.valid b hb).1
  rw [h.takes, h.takes] at hends
  omega

/-- The real intervals in front of a new one and those behind it leave its size free, and their
images are no longer than they are. -/
theorem room_behind (h : Packs s o hi) (hq : q.Granular (grain s.page) o)
    (hfree : ∀ b ∈ s.blocks, ¬ b.Meets q.region) : hi + q.size ≤ top := by
  have hs := h.sound
  have hrow := regionsByStart_in_row hs
  have hpos := Nat.pos_of_ne_zero hq.valid.1
  have hvalid : ∀ r ∈ s.regionsByStart, o % grain s.page ≤ r.start ∧ r.stop ≤ top ∧
      0 < r.size ∧ ¬ r.Meets q.region := by
    intro r hr
    have hb : r.bare ∈ s.blocks := mem_blocks_iff_live.2 ⟨r, (mem_regionsByStart hs).1 hr, rfl⟩
    have hstart : r.start % grain s.page = o % grain s.page := h.starts r.bare hb
    obtain ⟨hrpos, hstop⟩ := hs.valid _ hb
    refine ⟨?_, hstop, hrpos, hfree r.bare hb⟩
    rw [← hstart]
    exact Nat.mod_le _ _
  have hbefore : o % grain s.page +
      ((s.regionsByStart.filter fun r => r.stop ≤ q.start).map Region.size).sum ≤ q.start := by
    refine sum_sizes_le (hrow.filter _) ?_ ?_
    · intro r hr
      simp only [List.mem_filter, decide_eq_true_eq] at hr
      exact ⟨(hvalid r hr.1).1, hr.2⟩
    · rw [← hq.start]
      exact Nat.mod_le _ _
  have hbehind : q.stop +
      ((s.regionsByStart.filter fun r => ¬ r.stop ≤ q.start).map Region.size).sum ≤ top := by
    refine sum_sizes_le (hrow.filter _) ?_ hq.valid.2
    intro r hr
    simp only [List.mem_filter, decide_eq_true_eq] at hr
    obtain ⟨-, hstop, -, hmeets⟩ := hvalid r hr.1
    refine ⟨?_, hstop⟩
    simp only [Region.Meets, Request.region, Region.stop, Request.stop] at hmeets hr ⊢
    omega
  have hsplit := List.sum_map_filter_add_sum_map_filter_not (fun r => r.stop ≤ q.start)
    Region.size s.regionsByStart
  rw [← total_eq_sum_by_start hs] at hsplit
  have hend := h.end_eq
  simp only [Request.stop] at hbehind
  omega

/-- The extent goes from the first byte that is taken to the last. -/
theorem extent_eq (h : Packs s o hi) : s.extent = s.total := by
  have hs := h.sound
  have hend := h.end_eq
  simp only [extent]
  cases hfirst : s.byPlace.first? with
  | none =>
    rw [Index.first?_eq_none_iff] at hfirst
    have hnone : s.regions = [] := by simp [regions, Index.values, hfirst]
    simp [total, hnone]
  | some first =>
    cases hlast : s.byPlace.last? with
    | none =>
      rw [Index.last?, List.getLast?_eq_none_iff] at hlast
      have hin := (Index.first?_eq_some_iff.1 hfirst).1
      rw [hlast] at hin
      cases hin
    | some last =>
      obtain ⟨p, hp, hpplace⟩ := (hs.coherent.byPlace _ _).1 (Index.first?_eq_some_iff.1 hfirst).1
      obtain ⟨r, hr, -⟩ := (hs.coherent.byPlace _ _).1
        ((Index.getLast?_eq_some_iff s.byPlace.ascending).1 hlast).1
      simp only [hr]
      have hpb := mem_blocks_of_regionAt? hp
      have hlow := (h.takes p.place).1 (takes_ends hpb (hs.valid _ hpb).1).1
      have hhigh := h.placeEnd_le (mem_blocks_of_regionAt? hr)
      have hlo := taken_between hs hfirst hlast hr ((h.takes (o % grain s.page)).2 (by omega))
      have hhi := taken_between hs hfirst hlast hr ((h.takes (hi - 1)).2 (by omega))
      simp only [Region.placeEnd, Region.bare_place, Region.bare_size] at hhigh hhi ⊢
      omega

theorem packed (h : Packs s o hi) : s.Packed (o % grain s.page) where
  tiles m := by
    rw [h.end_eq]
    exact h.takes m
  apart _ ha _ hb hne := h.sound.placed_apart ha hb hne
  extent := h.extent_eq

end Packs

end Space
end Unslide
