import Unslide.Proofs.Space.Lookup
import Unslide.Proofs.Space.Reachable

/-!
# Unslide.Proofs.Space.Translation

The translation of real addresses into synthetic ones, over the whole address space. A look-up
consults one region only, found by its real start, while that no two images overlap is a property of
the synthetic order; the two are brought together in `OneToOne`.

* `translate?_eq_some_iff`: an address is translated by the live region that contains it.
* `oneToOne_of_reachable`: in every space that a process can have, translation is one to one between
  the bytes of the live regions and those of their synthetic intervals, and keeps page offsets.
-/

namespace Unslide
namespace Space

/-- The synthetic address that a look-up of a real address answers. -/
def translate? (s : Space) (addr : Nat) : Option Nat := (s.locate? addr).map Prod.fst

/-- Translation is one to one between the live regions and their synthetic intervals. -/
structure OneToOne (s : Space) : Prop where
  /-- The addresses with an image are those of the live regions. -/
  domain : ∀ addr, (s.translate? addr).isSome = true ↔ ∃ r ∈ s.live, r.Contains addr
  /-- No address is in two live regions. -/
  single : ∀ addr i j r q, s.regionAt? i = some r → s.regionAt? j = some q →
    r.Contains addr → q.Contains addr → i = j
  value : ∀ r ∈ s.live, ∀ addr, r.Contains addr →
    s.translate? addr = some (r.place + (addr - r.start))
  injective : ∀ a b, (s.translate? a).isSome = true → a ≠ b → s.translate? a ≠ s.translate? b
  offset : s.page ≠ 0 → ∀ addr place, s.translate? addr = some place →
    place % s.page = addr % s.page
  below_top : ∀ addr place, s.translate? addr = some place → addr < top ∧ place < top
  /-- Every synthetic address of a live region is the image of one real address. -/
  onto : ∀ r ∈ s.live, ∀ place, r.place ≤ place → place < r.placeEnd →
    ∃! addr, s.translate? addr = some place

variable {s : Space} {addr place : Nat} {r q : Region}

theorem slot_eq_of_contains (h : s.Sound) {i j : Nat} (hr : s.regionAt? i = some r)
    (hq : s.regionAt? j = some q) (hcr : r.Contains addr) (hcq : q.Contains addr) : i = j := by
  have heq := h.block_eq_of_contains (mem_blocks_of_regionAt? hr) (mem_blocks_of_regionAt? hq)
    (show r.bare.Contains addr from hcr) (show q.bare.Contains addr from hcq)
  have hstart : r.bare.start = q.bare.start := congrArg Region.start heq
  exact h.coherent.slot_unique hr hq hstart

theorem translate?_eq_some_iff (h : s.Sound) :
    s.translate? addr = some place ↔ ∃ r ∈ s.live, r.Contains addr ∧ r.placeOf addr = place := by
  rw [translate?, Option.map_eq_some_iff]
  constructor
  · intro ⟨⟨_, handle⟩, hl, hplace⟩
    cases hplace
    obtain ⟨-, r, hr, hc, hplace⟩ := (locate?_eq_some_iff h).1 hl
    exact ⟨r, ⟨_, hr⟩, hc, hplace⟩
  · intro ⟨r, ⟨slot, hr⟩, hc, hplace⟩
    exact ⟨(place, ⟨slot, s.age⟩), (locate?_eq_some_iff h).2 ⟨rfl, r, hr, hc, hplace⟩, rfl⟩

theorem translate?_of_contains (h : s.Sound) (hr : r ∈ s.live) (hc : r.Contains addr) :
    s.translate? addr = some (r.placeOf addr) :=
  (translate?_eq_some_iff h).2 ⟨r, hr, hc, rfl⟩

theorem isSome_translate?_iff (h : s.Sound) :
    (s.translate? addr).isSome = true ↔ ∃ r ∈ s.live, r.Contains addr := by
  simp only [Option.isSome_iff_exists, translate?_eq_some_iff h]
  constructor
  · intro ⟨place, r, hr, hc, _⟩
    exact ⟨r, hr, hc⟩
  · intro ⟨r, hr, hc⟩
    exact ⟨r.placeOf addr, r, hr, hc, rfl⟩

/-- The image of an address lies in the synthetic interval of its region. -/
theorem placeOf_mem (hc : r.Contains addr) :
    r.place ≤ r.placeOf addr ∧ r.placeOf addr < r.placeEnd := by
  simp only [Region.Contains, Region.stop, Region.placeOf, Region.placeEnd] at hc ⊢
  omega

/-- Live regions that share a synthetic byte are one region. -/
theorem eq_of_placed_together (h : s.Sound) (hr : r ∈ s.live) (hq : q ∈ s.live)
    (hpr : r.place ≤ place ∧ place < r.placeEnd) (hpq : q.place ≤ place ∧ place < q.placeEnd) :
    r = q := by
  have hrb : r.bare ∈ s.blocks := mem_blocks_iff_live.2 ⟨r, hr, rfl⟩
  have hqb : q.bare ∈ s.blocks := mem_blocks_iff_live.2 ⟨q, hq, rfl⟩
  refine h.tiled.inj r hr q hq ?_
  by_cases heq : r.bare = q.bare
  · have hplace : r.bare.place = q.bare.place := congrArg Region.place heq
    exact hplace
  · have hapart := h.placed_apart hrb hqb heq
    simp only [Region.placeEnd, Region.bare_place, Region.bare_size] at hapart hpr hpq
    omega

theorem translate?_injective (h : s.Sound) {a b : Nat} (ha : s.translate? a = some place)
    (hb : s.translate? b = some place) : a = b := by
  obtain ⟨r, hr, hcr, hpr⟩ := (translate?_eq_some_iff h).1 ha
  obtain ⟨q, hq, hcq, hpq⟩ := (translate?_eq_some_iff h).1 hb
  have hinr := placeOf_mem hcr
  have hinq := placeOf_mem hcq
  rw [hpr] at hinr
  rw [hpq] at hinq
  have heq := eq_of_placed_together h hr hq hinr hinq
  subst heq
  simp only [Region.Contains, Region.placeOf] at hcr hcq hpr hpq
  omega

theorem mod_page_of_translate? (h : s.Sound) (hpage : s.page ≠ 0)
    (hsome : s.translate? addr = some place) : place % s.page = addr % s.page := by
  obtain ⟨r, hr, hc, rfl⟩ := (translate?_eq_some_iff h).1 hsome
  have hoff := h.offsets r.bare (mem_blocks_iff_live.2 ⟨r, hr, rfl⟩)
  have hshift := pageOffset_add_congr hoff (addr - r.start)
  simp only [pageOffset, if_neg hpage, Region.bare_place, Region.bare_start] at hshift
  rw [Region.placeOf, hshift, Nat.add_sub_of_le hc.1]

theorem lt_top_of_translate? (h : s.Sound) (hsome : s.translate? addr = some place) :
    addr < top ∧ place < top := by
  obtain ⟨r, hr, hc, rfl⟩ := (translate?_eq_some_iff h).1 hsome
  have hb : r.bare ∈ s.blocks := mem_blocks_iff_live.2 ⟨r, hr, rfl⟩
  constructor
  · exact Nat.lt_of_lt_of_le hc.2 (h.valid r.bare hb).2
  · have hend : r.bare.placeEnd ≤ top := h.placeEnd_le_top hb
    exact Nat.lt_of_lt_of_le (placeOf_mem hc).2 hend

theorem exists_translate?_eq (h : s.Sound) (hr : r ∈ s.live) (hle : r.place ≤ place)
    (hlt : place < r.placeEnd) : s.translate? (r.start + (place - r.place)) = some place := by
  refine (translate?_eq_some_iff h).2 ⟨r, hr, ?_, ?_⟩
  · simp only [Region.Contains, Region.stop, Region.placeEnd] at hlt ⊢
    omega
  · simp only [Region.placeOf]
    omega

/-- **Translation is one to one.** Whatever a space has been through, an address has an image if
and only if a live region contains it, and then only one does; different addresses have different
images; page offsets are kept; and every synthetic address of a live region is the image of exactly
one real address. -/
theorem oneToOne_of_reachable (h : s.Reachable) : s.OneToOne where
  domain _ := isSome_translate?_iff (sound_of_reachable h)
  single _ _ _ _ _ hr hq hcr hcq := slot_eq_of_contains (sound_of_reachable h) hr hq hcr hcq
  value _ hr _ hc := translate?_of_contains (sound_of_reachable h) hr hc
  injective a b hsome hne heq := by
    obtain ⟨place, ha⟩ := Option.isSome_iff_exists.1 hsome
    exact hne (translate?_injective (sound_of_reachable h) ha (heq ▸ ha))
  offset hpage _ _ hsome := mod_page_of_translate? (sound_of_reachable h) hpage hsome
  below_top _ _ hsome := lt_top_of_translate? (sound_of_reachable h) hsome
  onto r hr place hle hlt := by
    have hs := sound_of_reachable h
    refine ⟨r.start + (place - r.place), exists_translate?_eq hs hr hle hlt, ?_⟩
    intro addr haddr
    exact translate?_injective hs haddr (exists_translate?_eq hs hr hle hlt)

/-- One region was evicted, and another one, which reaches up to the top, was cut in three and
placed anew. Its last byte is still translated, and its page offset kept. -/
theorem oneToOne_after_eviction_and_carving :
    let s := ((((aligned 4096).reserve ⟨0x5000, 0x3000, 1, 0⟩ false).state.reserve
      ⟨0xfffffffffffe0fff, 0x1f000, 2, 0⟩ false).state.reserve
      ⟨0x4000, 0x9000, 3, 0⟩ true).state.reserve ⟨0xfffffffffffe1fff, 0x1000, 4, 0⟩ true |>.state
    s.Reachable ∧ s.OneToOne ∧ s.regions.map Region.id = [2, 4, 2, 3] ∧
      s.translate? 0xfffffffffffffffe = some 0x1fffe := by
  have h := Reachable.reserve ⟨0xfffffffffffe1fff, 0x1000, 4, 0⟩ true
    (.reserve ⟨0x4000, 0x9000, 3, 0⟩ true
      (.reserve ⟨0xfffffffffffe0fff, 0x1f000, 2, 0⟩ false
        (.reserve ⟨0x5000, 0x3000, 1, 0⟩ false (.aligned 4096))))
  exact ⟨h, oneToOne_of_reachable h, by decide, by decide⟩

end Space
end Unslide
