import Unslide.Proofs.Space.Arena
import Unslide.Proofs.Space.Tiling

/-!
# Unslide.Proofs.Space.Soundness

The invariant of a space, `Sound`: the slots and what names them agree, the regions tile the
synthetic space, their real intervals do not meet, and every region keeps its page offset.

* `sound_release`, `blocks_release`: removing a region keeps a space sound and takes away its block.
* `sound_releaseAll`, `blockAt?_releaseAll`: so does removing several.
-/

namespace Unslide
namespace Space

/-- What every space keeps. -/
structure Sound (s : Space) : Prop where
  page : s.page = 0 ∨ isPowerOfTwo s.page = true
  coherent : s.Coherent
  tiled : Tiled s.live
  valid : ∀ b ∈ s.blocks, 0 < b.size ∧ b.stop ≤ top
  apart : ∀ a ∈ s.blocks, ∀ b ∈ s.blocks, a.Meets b → a = b
  offsets : ∀ b ∈ s.blocks, pageOffset s.page b.place = pageOffset s.page b.start

/-- The region in a slot without its spare bytes. -/
def blockAt? (s : Space) (slot : Nat) : Option Region := (s.regionAt? slot).map Region.bare

variable {s : Space} {slot : Nat} {r : Region}

theorem mem_blocks_iff_blockAt? {b : Region} : b ∈ s.blocks ↔ ∃ slot, s.blockAt? slot = some b := by
  simp only [mem_blocks, blockAt?, Option.map_eq_some_iff]

theorem live_empty (page : Nat) : (empty page).live = ∅ := by
  ext r
  simp [mem_live, empty, regionAt?]

theorem blocks_empty (page : Nat) : (empty page).blocks = ∅ := by
  ext b
  simp [mem_blocks, empty, regionAt?]

theorem isPowerOfTwo_pageSize (alignment : Nat) :
    pageSize alignment = 0 ∨ isPowerOfTwo (pageSize alignment) = true := by
  by_cases h : isPowerOfTwo alignment = true <;> simp [pageSize, h]

theorem sound_aligned (alignment : Nat) : (aligned alignment).Sound where
  page := isPowerOfTwo_pageSize alignment
  coherent := coherent_empty _
  tiled := by
    rw [aligned, live_empty]
    exact .empty
  valid := by simp [aligned, blocks_empty]
  apart := by simp [aligned, blocks_empty]
  offsets := by simp [aligned, blocks_empty]

namespace Sound

theorem block_eq_of_start_eq (h : s.Sound) {a b : Region} (ha : a ∈ s.blocks) (hb : b ∈ s.blocks)
    (heq : a.start = b.start) : a = b := by
  have hva := h.valid a ha
  have hvb := h.valid b hb
  refine h.apart a ha b hb ?_
  simp only [Region.Meets, Region.stop]
  omega

theorem block_eq_of_contains (h : s.Sound) {a b : Region} (ha : a ∈ s.blocks) (hb : b ∈ s.blocks)
    {addr : Nat} (hca : a.Contains addr) (hcb : b.Contains addr) : a = b := by
  refine h.apart a ha b hb ?_
  simp only [Region.Contains, Region.Meets] at hca hcb ⊢
  omega

/-- A region ends below the top, and so do the spare bytes behind it. -/
theorem bounds (h : s.Sound) (hr : s.regionAt? slot = some r) :
    r.stop ≤ top ∧ r.placeEnd + r.spare ≤ top :=
  ⟨(h.valid _ (mem_blocks_of_regionAt? hr)).2, h.tiled.reach_le r ⟨slot, hr⟩⟩

/-- Two blocks do not share a synthetic byte. -/
theorem placed_apart (h : s.Sound) {a b : Region} (ha : a ∈ s.blocks) (hb : b ∈ s.blocks)
    (hne : a ≠ b) : a.placeEnd ≤ b.place ∨ b.placeEnd ≤ a.place := by
  obtain ⟨p, hp, rfl⟩ := mem_blocks_iff_live.1 ha
  obtain ⟨q, hq, rfl⟩ := mem_blocks_iff_live.1 hb
  rcases Nat.lt_trichotomy p.place q.place with hlt | heq | hlt
  · exact .inl (Nat.le_trans (Tiled.placeEnd_le_reach p) (h.tiled.next p hp q hq hlt))
  · exact absurd (by rw [h.tiled.inj p hp q hq heq]) hne
  · exact .inr (Nat.le_trans (Tiled.placeEnd_le_reach q) (h.tiled.next q hq p hp hlt))

theorem placeEnd_le_top (h : s.Sound) {b : Region} (hb : b ∈ s.blocks) : b.placeEnd ≤ top := by
  obtain ⟨p, hp, rfl⟩ := mem_blocks_iff_live.1 hb
  exact Nat.le_trans (Tiled.placeEnd_le_reach p) (h.tiled.reach_le p hp)

/-- A space whose blocks are some of those of a sound one is sound if its slots and its tiling
are. -/
theorem of_subset (h : s.Sound) {t : Space} (hc : t.Coherent) (ht : Tiled t.live)
    (hpage : t.page = s.page) (hsub : t.blocks ⊆ s.blocks) : t.Sound where
  page := by
    rw [hpage]
    exact h.page
  coherent := hc
  tiled := ht
  valid b hb := h.valid b (hsub hb)
  apart a ha b hb := h.apart a (hsub ha) b (hsub hb)
  offsets b hb := by
    rw [hpage]
    exact h.offsets b (hsub hb)

/-- A space is sound that has one block more than a sound one, where no block is, if its slots and
its tiling are. -/
theorem of_insert (h : s.Sound) {t : Space} (hc : t.Coherent) (ht : Tiled t.live)
    (hpage : t.page = s.page) {b : Region} (hblocks : t.blocks = insert b s.blocks)
    (hvalid : 0 < b.size ∧ b.stop ≤ top) (hfree : ∀ a ∈ s.blocks, ¬ a.Meets b)
    (hoff : pageOffset s.page b.place = pageOffset s.page b.start) : t.Sound where
  page := by
    rw [hpage]
    exact h.page
  coherent := hc
  tiled := ht
  valid := by
    rw [hblocks]
    rintro a (rfl | ha)
    · exact hvalid
    · exact h.valid a ha
  apart := by
    rw [hblocks]
    rintro a (rfl | ha) c (rfl | hca) hmeets
    · rfl
    · exact absurd (Region.meets_comm.1 hmeets) (hfree c hca)
    · exact absurd hmeets (hfree a ha)
    · exact h.apart a ha c hca hmeets
  offsets := by
    rw [hblocks, hpage]
    rintro a (rfl | ha)
    · exact hoff
    · exact h.offsets a ha

end Sound

/-! ## Removing regions -/

theorem release_of_none (h : s.regionAt? slot = none) : s.release slot = s := by
  simp only [release, h]

theorem page_release (s : Space) (slot : Nat) : (s.release slot).page = s.page := by
  unfold release
  split
  · rfl
  · simp only
    split <;> rfl

theorem blockAt?_release (hr : s.regionAt? slot = some r) (i : Nat) :
    (s.release slot).blockAt? i = if i = slot then none else s.blockAt? i := by
  simp only [release, hr, blockAt?]
  split
  · rw [regionAt?_vacate]
    split <;> rfl
  · rename_i before _
    rw [regionAt?_adjust]
    split
    · rename_i hi
      subst hi
      rw [regionAt?_vacate]
      split
      · rfl
      · cases s.regionAt? before.2 <;> rfl
    · rw [regionAt?_vacate]
      split <;> rfl

theorem blockAt?_release_of_ne (s : Space) {i : Nat} (hi : i ≠ slot) :
    (s.release slot).blockAt? i = s.blockAt? i := by
  cases hr : s.regionAt? slot with
  | none => rw [release_of_none hr]
  | some r => rw [blockAt?_release hr, if_neg hi]

theorem blocks_release (h : s.Sound) (hr : s.regionAt? slot = some r) :
    (s.release slot).blocks = s.blocks \ {r.bare} := by
  rw [← blocks_vacate h.coherent hr]
  simp only [release, hr]
  split
  · rfl
  · exact blocks_adjust _ _ fun p => rfl

theorem coherent_release (h : s.Sound) (hr : s.regionAt? slot = some r) :
    (s.release slot).Coherent := by
  have hleft := coherent_vacate h.coherent hr
  simp only [release, hr]
  split
  · exact hleft
  · exact coherent_adjust hleft (fun p => rfl) (fun p => rfl)

/-- A region that stays when another one leaves its slot stays in the index. -/
theorem mem_byPlace_vacate (h : s.Sound) (hr : s.regionAt? slot = some r) {q : Region}
    (hq : q ∈ s.live) (hne : q ≠ r) :
    ∃ i, (q.place, i) ∈ (s.vacate slot r).byPlace.entries := by
  have hleft : q ∈ (s.vacate slot r).live := by
    rw [live_vacate h.coherent hr]
    exact ⟨hq, hne⟩
  obtain ⟨i, hi⟩ := hleft
  exact ⟨i, ((coherent_vacate h.coherent hr).byPlace q.place i).2 ⟨q, hi, rfl⟩⟩

theorem tiled_release (h : s.Sound) (hr : s.regionAt? slot = some r) :
    Tiled (s.release slot).live := by
  have hleft := coherent_vacate h.coherent hr
  have hlive := live_vacate h.coherent hr
  have hmem : r ∈ s.live := ⟨slot, hr⟩
  have hne : ∀ q ∈ s.live, q.place < r.place → q ≠ r := by
    rintro q _ hlt rfl
    omega
  simp only [release, hr]
  split
  · rename_i hnone
    rw [Index.below?_eq_none_iff] at hnone
    rw [hlive]
    refine h.tiled.remove_first hmem ?_
    intro q hq hlt
    obtain ⟨i, hin⟩ := mem_byPlace_vacate h hr hq (hne q hq hlt)
    exact hnone _ hin hlt
  · rename_i before hsome
    rw [Index.below?_eq_some_iff] at hsome
    obtain ⟨⟨hin, hlt⟩, hmax⟩ := hsome
    obtain ⟨p, hp, hplace⟩ := (hleft.byPlace before.1 before.2).1 hin
    have hpl : p ∈ (s.vacate slot r).live := ⟨before.2, hp⟩
    rw [live_adjust hleft hp, hlive]
    rw [hlive] at hpl
    refine h.tiled.remove_behind hmem hpl.1 (by omega) ?_
    intro q hq hqr
    obtain ⟨i, hin⟩ := mem_byPlace_vacate h hr hq (hne q hq hqr)
    have := hmax _ hin hqr
    omega

theorem sound_release (h : s.Sound) (slot : Nat) : (s.release slot).Sound := by
  cases hr : s.regionAt? slot with
  | none =>
    rw [release_of_none hr]
    exact h
  | some r =>
    refine h.of_subset (coherent_release h hr) (tiled_release h hr) (page_release s slot) ?_
    rw [blocks_release h hr]
    exact fun b hb => hb.1

theorem page_releaseAll (s : Space) (slots : List Nat) : (s.releaseAll slots).page = s.page := by
  induction slots generalizing s with
  | nil => rfl
  | cons slot rest ih =>
    rw [show s.releaseAll (slot :: rest) = (s.release slot).releaseAll rest from rfl, ih,
      page_release]

theorem sound_releaseAll (h : s.Sound) (slots : List Nat) : (s.releaseAll slots).Sound := by
  induction slots generalizing s with
  | nil => exact h
  | cons slot rest ih => exact ih (sound_release h slot)

theorem blockAt?_releaseAll (s : Space) (slots : List Nat) (i : Nat) :
    (s.releaseAll slots).blockAt? i = if i ∈ slots then none else s.blockAt? i := by
  induction slots generalizing s with
  | nil => simp [releaseAll]
  | cons slot rest ih =>
    rw [show s.releaseAll (slot :: rest) = (s.release slot).releaseAll rest from rfl, ih]
    simp only [List.mem_cons]
    by_cases hi : i ∈ rest
    · simp [hi]
    · simp only [hi, or_false, if_false]
      cases hr : s.regionAt? slot with
      | none =>
        rw [release_of_none hr]
        by_cases his : i = slot
        · simp [his, blockAt?, hr]
        · simp [his]
      | some r => exact blockAt?_release hr i

end Space
end Unslide
