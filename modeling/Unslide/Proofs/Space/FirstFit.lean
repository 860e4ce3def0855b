import Mathlib.Order.Bounds.Defs
import Unslide.Proofs.Space.Soundness

/-!
# Unslide.Proofs.Space.FirstFit

Placement is complete and minimal. Against the blocks of a space, a request fits at a synthetic
address if its bytes end below the top, no block takes any of them, and the address has the page
offset of the real one. `settle` finds the least address at which the request fits, and refuses
only if it fits nowhere (`settle_obeys`).

* `alignedFrom_least`: the lowest address with a page offset from a floor on.
* `gapBehind?_least`, `not_fits_of_gapBehind?_none`: the spare bytes of one region.
-/

namespace Unslide

theorem pageOffset_le (page addr : Nat) : pageOffset page addr ≤ addr := by
  simp only [pageOffset]
  split
  · exact Nat.zero_le _
  · exact Nat.mod_le _ _

theorem pageOffset_pageOffset (page addr : Nat) :
    pageOffset page (pageOffset page addr) = pageOffset page addr := by
  by_cases h : page = 0
  · simp [pageOffset, h]
  · simp [pageOffset, h]

/-- Two addresses with one page offset lie in pages that are ordered as they are. -/
theorem page_add_le (page : Nat) {floor addr : Nat} (hle : floor ≤ addr) :
    floor - floor % page + addr % page ≤ addr ∧
      (addr % page < floor % page → floor - floor % page + addr % page + page ≤ addr) := by
  have hf := Nat.div_add_mod floor page
  have ha := Nat.div_add_mod addr page
  have hq : floor / page ≤ addr / page := Nat.div_le_div_right hle
  have hm := Nat.mul_le_mul_left page hq
  refine ⟨by omega, ?_⟩
  intro hlt
  have hne : floor / page ≠ addr / page := by
    intro heq
    rw [heq] at hf
    omega
  have hs := Nat.mul_le_mul_left page (Nat.succ_le_of_lt (Nat.lt_of_le_of_ne hq hne))
  rw [Nat.mul_succ] at hs
  omega

theorem alignedFrom_least {page addr floor c : Nat}
    (h : alignedFrom page (pageOffset page addr) floor = some c) :
    floor ≤ c ∧ pageOffset page c = pageOffset page addr ∧
      ∀ m, floor ≤ m → pageOffset page m = pageOffset page addr → c ≤ m := by
  by_cases hp : page = 0
  · simp only [alignedFrom, hp, if_true, Option.some.injEq] at h
    subst h
    simp [pageOffset, hp]
  · simp only [alignedFrom, pageOffset, hp, if_false] at h ⊢
    have hmod := Nat.mod_lt addr (Nat.pos_of_ne_zero hp)
    have hbase : (floor - floor % page) % page = 0 := by
      have hf := Nat.div_add_mod floor page
      rw [show floor - floor % page = page * (floor / page) by omega]
      exact Nat.mul_mod_right _ _
    have hc : ∀ k, (floor - floor % page + addr % page + page * k) % page = addr % page := by
      intro k
      rw [Nat.add_mul_mod_self_left, Nat.add_mod, hbase, Nat.zero_add, Nat.mod_mod, Nat.mod_mod]
    split at h
    · cases h
    · split at h
      · rename_i hle
        cases h
        refine ⟨hle, by simpa using hc 0, ?_⟩
        intro m hm hoff
        rw [← hoff]
        exact (page_add_le page hm).1
      · split at h
        · cases h
        · rename_i hlt _
          cases h
          have hfm := Nat.mod_lt floor (Nat.pos_of_ne_zero hp)
          have hfl := Nat.mod_le floor page
          refine ⟨by omega, by simpa using hc 1, ?_⟩
          intro m hm hoff
          have := (page_add_le page hm).2
          omega

theorem top_lt_of_alignedFrom_none {page addr floor m : Nat}
    (h : alignedFrom page (pageOffset page addr) floor = none) (hm : floor ≤ m)
    (hoff : pageOffset page m = pageOffset page addr) : top < m := by
  by_cases hp : page = 0
  · simp [alignedFrom, hp] at h
  · simp only [alignedFrom, pageOffset, hp, if_false] at h hoff
    have hle := page_add_le page hm
    split at h
    · omega
    · split at h
      · cases h
      · split at h
        · have hfl := Nat.mod_le floor page
          omega
        · cases h

def Request.block (q : Request) (m : Nat) : Region := { q.region with place := m }

namespace Space

structure Fits (page : Nat) (B : Set Region) (q : Request) (m : Nat) : Prop where
  below_top : m + q.size ≤ top
  apart : ∀ b ∈ B, m + q.size ≤ b.place ∨ b.placeEnd ≤ m
  offset : pageOffset page m = pageOffset page q.start

/-- What placing a request beside the blocks answers and leaves: its block at the least address at
which it fits, or nothing new if it fits nowhere. -/
inductive Settles (page : Nat) (B : Set Region) (q : Request) :
    Except Refusal Unit → Set Region → Prop where
  | room {m : Nat} : IsLeast {m | Fits page B q m} m →
      Settles page B q (.ok ()) (insert (q.block m) B)
  | full : (∀ m, ¬ Fits page B q m) →
      Settles page B q (.error (.exhausted q.start q.size)) B

/-- The step leaves a sound space with the old page size, and its answer and the blocks behind it
follow the law. -/
structure Obeys (s : Space) (law : Except Refusal Unit → Set Region → Prop)
    (step : Step Space (Except Refusal Unit)) : Prop where
  sound : step.state.Sound
  page : step.state.page = s.page
  law : law step.answer step.state.blocks

variable {s : Space} {q : Request} {p : Region}

theorem pageOffset_le_of_fits {B : Set Region} {m : Nat} (h : Fits s.page B q m) :
    pageOffset s.page q.start ≤ m := by
  rw [← h.offset]
  exact pageOffset_le _ _

/-! ## The spare bytes of one region -/

theorem gapBehind?_least {page slot : Nat} {gap : Gap}
    (h : gapBehind? page q.size (pageOffset page q.start) slot p = some gap) :
    gap.slot = slot ∧ gap.floor = p.placeEnd ∧ gap.place + q.size + gap.spare = p.reach ∧
      p.placeEnd ≤ gap.place ∧ gap.place + q.size ≤ top ∧
      pageOffset page gap.place = pageOffset page q.start ∧
      ∀ m, p.placeEnd ≤ m → pageOffset page m = pageOffset page q.start → gap.place ≤ m := by
  simp only [gapBehind?] at h
  split at h
  · cases h
  · rename_i place hplace
    obtain ⟨hfloor, hoff, hmin⟩ := alignedFrom_least hplace
    split at h
    · rename_i hfits
      cases h
      refine ⟨rfl, rfl, ?_, hfloor, hfits.1, hoff, hmin⟩
      simp only [Region.reach]
      omega
    · cases h

theorem not_fits_of_gapBehind?_none {page slot m : Nat} {B : Set Region}
    (h : gapBehind? page q.size (pageOffset page q.start) slot p = none)
    (hfits : Fits page B q m) (hfloor : p.placeEnd ≤ m) : ¬ m + q.size ≤ p.reach := by
  intro hreach
  simp only [gapBehind?] at h
  have htop := hfits.below_top
  split at h
  · rename_i hnone
    have := top_lt_of_alignedFrom_none hnone hfloor hfits.offset
    omega
  · rename_i place hplace
    have hmin := (alignedFrom_least hplace).2.2 m hfloor hfits.offset
    split at h
    · cases h
    · rename_i hnot
      simp only [Region.reach] at hreach
      omega

theorem Sound.fits_free_or_spare (h : s.Sound) {m : Nat} (hfits : Fits s.page s.blocks q m) :
    (∀ p ∈ s.live, m + q.size ≤ p.place) ∨
      ∃ p ∈ s.live, p.placeEnd ≤ m ∧ m + q.size ≤ p.reach := by
  refine h.tiled.free_or_spare hfits.below_top ?_
  intro p hp
  exact hfits.apart p.bare (mem_blocks_iff_live.2 ⟨p, hp, rfl⟩)

/-- A gap that was found is the first one with room. -/
theorem firstGap?_spec (h : s.Sound) {gap : Gap}
    (hgap : s.firstGap? q.size (pageOffset s.page q.start) = some gap) :
    ∃ slot p, s.regionAt? slot = some p ∧
      gapBehind? s.page q.size (pageOffset s.page q.start) slot p = some gap ∧
      ∀ c ∈ s.live, c.place < p.place → ∃ slot,
        gapBehind? s.page q.size (pageOffset s.page q.start) slot c = none := by
  obtain ⟨⟨k, slot⟩, hin, hfound, hbefore⟩ := Index.findSome?_values_eq_some hgap
  obtain ⟨p, hp, rfl⟩ := (h.coherent.byPlace k slot).1 hin
  simp only [hp] at hfound
  refine ⟨slot, p, hp, hfound, ?_⟩
  rintro c ⟨i, hi⟩ hlt
  have hnone := hbefore (c.place, i) ((h.coherent.byPlace _ _).2 ⟨c, hi, rfl⟩) hlt
  simp only [hi] at hnone
  exact ⟨i, hnone⟩

theorem firstGap?_none (h : s.Sound)
    (hgap : s.firstGap? q.size (pageOffset s.page q.start) = none) :
    ∀ c ∈ s.live, ∃ slot,
      gapBehind? s.page q.size (pageOffset s.page q.start) slot c = none := by
  rintro c ⟨i, hi⟩
  have hnone := Index.findSome?_values_eq_none.1 hgap (c.place, i)
    ((h.coherent.byPlace _ _).2 ⟨c, hi, rfl⟩)
  simp only [hi] at hnone
  exact ⟨i, hnone⟩

/-! ## The whole space -/

/-- Storing a region where it fits: `t` is the space `s` with some spare bytes given up. -/
theorem obeys_store (h : s.Sound) {t : Space} (hc : t.Coherent) (hblocks : t.blocks = s.blocks)
    (hpage : t.page = s.page) (hv : q.Valid) (hfree : ∀ b ∈ s.blocks, ¬ b.Meets q.region)
    {m spare : Nat} (hleast : IsLeast {m | Fits s.page s.blocks q m} m)
    (htiled : Tiled (insert { q.block m with spare := spare } t.live)) :
    s.Obeys (Settles s.page s.blocks q)
      ⟨t.store { q.block m with spare := spare }, .ok (), []⟩ := by
  have hpos : 0 < q.size := Nat.pos_of_ne_zero hv.1
  have hfits : Fits s.page s.blocks q m := hleast.1
  have hlive : ∀ c ∈ t.live, c.bare ∈ s.blocks := by
    intro c hcl
    rw [← hblocks]
    exact mem_blocks_iff_live.2 ⟨c, hcl, rfl⟩
  have hstart : ∀ c ∈ t.live, c.start ≠ q.start := by
    intro c hcl heq
    refine hfree c.bare (hlive c hcl) ?_
    have hcv := (h.valid c.bare (hlive c hcl)).1
    simp only [Region.Meets, Region.stop, Request.region, Region.bare_start,
      Region.bare_size] at hcv ⊢
    omega
  have hplace : ∀ c ∈ t.live, c.place ≠ m := by
    intro c hcl heq
    have hcv := (h.valid c.bare (hlive c hcl)).1
    have hapart := hfits.apart c.bare (hlive c hcl)
    simp only [Region.placeEnd, Region.bare_place, Region.bare_size] at hcv hapart
    omega
  have hblocks' : (t.store { q.block m with spare := spare }).blocks =
      insert (q.block m) s.blocks := by
    rw [blocks_store hc, hblocks]
    rfl
  have hpage' : (t.store { q.block m with spare := spare }).page = s.page := by
    rw [page_store, hpage]
  refine ⟨?_, hpage', ?_⟩
  · refine h.of_insert (coherent_store hc _ hstart hplace) ?_ hpage' hblocks' ⟨hpos, hv.2⟩ hfree
      hfits.offset
    rw [live_store hc]
    exact htiled
  · rw [hblocks']
    exact .room hleast

theorem not_fits_of_top_lt {B : Set Region} (h : top < q.size + pageOffset s.page q.start)
    (m : Nat) :
    ¬ Fits s.page B q m := by
  intro hfits
  have := pageOffset_le_of_fits hfits
  have := hfits.below_top
  omega

theorem settle_empty_obeys (h : s.Sound) (hv : q.Valid) (hfree : ∀ b ∈ s.blocks, ¬ b.Meets q.region)
    (htop : q.size + pageOffset s.page q.start ≤ top) (hnone : s.byPlace.first? = none) :
    s.Obeys (Settles s.page s.blocks q)
      ⟨s.store { q.block (pageOffset s.page q.start) with
        spare := top - (q.size + pageOffset s.page q.start) }, .ok (), []⟩ := by
  have hempty : s.live = ∅ := by
    rw [Index.first?_eq_none_iff] at hnone
    refine Set.eq_empty_iff_forall_notMem.2 ?_
    rintro c ⟨i, hi⟩
    have hin := (h.coherent.byPlace c.place i).2 ⟨c, hi, rfl⟩
    rw [hnone] at hin
    cases hin
  refine obeys_store h h.coherent rfl rfl hv hfree ⟨⟨?_, ?_, ?_⟩, ?_⟩ ?_
  · omega
  · intro b hb
    obtain ⟨c, hc, rfl⟩ := mem_blocks_iff_live.1 hb
    rw [hempty] at hc
    cases hc
  · exact pageOffset_pageOffset _ _
  · exact fun m hm => pageOffset_le_of_fits hm
  · rw [hempty, insert_empty_eq]
    refine .singleton (Nat.pos_of_ne_zero hv.1) ?_
    simp only [Region.reach, Region.placeEnd, Request.block, Request.region]
    omega

/-- In front of the first region a request goes to its page offset, too. -/
theorem settle_front_obeys (h : s.Sound) (hv : q.Valid) (hfree : ∀ b ∈ s.blocks, ¬ b.Meets q.region)
    {first : Nat × Nat} (hfirst : s.byPlace.first? = some first)
    (hroom : q.size + pageOffset s.page q.start ≤ first.1) :
    s.Obeys (Settles s.page s.blocks q)
      ⟨s.store { q.block (pageOffset s.page q.start) with
        spare := first.1 - (q.size + pageOffset s.page q.start) }, .ok (), []⟩ := by
  obtain ⟨hin, hmin⟩ := Index.first?_eq_some_iff.1 hfirst
  obtain ⟨p, hp, hplace⟩ := (h.coherent.byPlace first.1 first.2).1 hin
  have hpl : p ∈ s.live := ⟨first.2, hp⟩
  have hfront : ∀ c ∈ s.live, p.place ≤ c.place := by
    rintro c ⟨i, hi⟩
    rw [hplace]
    exact hmin (c.place, i) ((h.coherent.byPlace c.place i).2 ⟨c, hi, rfl⟩)
  have hend := h.tiled.reach_le p hpl
  have hplt := h.tiled.place_lt_reach hpl
  refine obeys_store h h.coherent rfl rfl hv hfree ⟨⟨?_, ?_, ?_⟩, ?_⟩ ?_
  · omega
  · intro b hb
    obtain ⟨c, hc, rfl⟩ := mem_blocks_iff_live.1 hb
    have := hfront c hc
    rw [Region.bare_place]
    omega
  · exact pageOffset_pageOffset _ _
  · exact fun m hm => pageOffset_le_of_fits hm
  · refine h.tiled.insert_first (Nat.pos_of_ne_zero hv.1) hpl ?_ hfront
    simp only [Region.reach, Region.placeEnd, Request.block, Request.region]
    omega

/-- A request that does not fit in front of the first region can only fit behind one. -/
theorem fits_behind (h : s.Sound) {first : Nat × Nat} (hfirst : s.byPlace.first? = some first)
    (hroom : ¬ q.size + pageOffset s.page q.start ≤ first.1) {m : Nat}
    (hfits : Fits s.page s.blocks q m) : ∃ p ∈ s.live, p.placeEnd ≤ m ∧ m + q.size ≤ p.reach := by
  refine (h.fits_free_or_spare hfits).resolve_left ?_
  intro hall
  obtain ⟨p, hp, hplace⟩ :=
    (h.coherent.byPlace first.1 first.2).1 (Index.first?_eq_some_iff.1 hfirst).1
  have hle := hall p ⟨first.2, hp⟩
  have hoff := pageOffset_le_of_fits hfits
  omega

theorem settle_gap_obeys (h : s.Sound) (hv : q.Valid) (hfree : ∀ b ∈ s.blocks, ¬ b.Meets q.region)
    {first : Nat × Nat} (hfirst : s.byPlace.first? = some first)
    (hroom : ¬ q.size + pageOffset s.page q.start ≤ first.1) {gap : Gap}
    (hgap : s.firstGap? q.size (pageOffset s.page q.start) = some gap) :
    s.Obeys (Settles s.page s.blocks q)
      ⟨(s.adjust gap.slot fun p => { p with spare := gap.place - gap.floor }).store
        { q.block gap.place with spare := gap.spare }, .ok (), []⟩ := by
  obtain ⟨slot, p, hp, hfound, hbefore⟩ := firstGap?_spec h hgap
  obtain ⟨rfl, hfloor, hreach, hle, htop, hoff, hmin⟩ := gapBehind?_least hfound
  have hpl : p ∈ s.live := ⟨gap.slot, hp⟩
  let cut : Region → Region := fun p => { p with spare := gap.place - gap.floor }
  have hopened : (s.adjust gap.slot cut).Coherent :=
    coherent_adjust h.coherent (fun _ => rfl) (fun _ => rfl)
  have hblocks : (s.adjust gap.slot cut).blocks = s.blocks := blocks_adjust _ _ fun _ => rfl
  refine obeys_store h hopened hblocks rfl hv hfree ⟨⟨htop, ?_, hoff⟩, ?_⟩ ?_
  · intro b hb
    obtain ⟨c, hc, rfl⟩ := mem_blocks_iff_live.1 hb
    rcases Nat.lt_trichotomy c.place p.place with hlt | heq | hlt
    · have := h.tiled.next c hc p hpl hlt
      have := Tiled.placeEnd_le_reach c
      simp only [Region.placeEnd, Region.bare_place, Region.bare_size] at *
      omega
    · rw [h.tiled.inj c hc p hpl heq]
      exact .inr hle
    · have := h.tiled.next p hpl c hc hlt
      rw [Region.bare_place]
      omega
  · intro m hfits
    obtain ⟨c, hc, hend, hcreach⟩ := fits_behind h hfirst hroom hfits
    rcases Nat.lt_trichotomy c.place p.place with hlt | heq | hlt
    · obtain ⟨i, hnone⟩ := hbefore c hc hlt
      exact absurd hcreach (not_fits_of_gapBehind?_none hnone hfits hend)
    · rw [h.tiled.inj c hc p hpl heq] at hend
      exact hmin m hend hfits.offset
    · have := h.tiled.next p hpl c hc hlt
      simp only [Region.placeEnd] at hend
      omega
  · rw [live_adjust h.coherent hp, show cut p = { p with spare := gap.place - p.placeEnd } by
      rw [← hfloor]]
    refine h.tiled.insert_behind (Nat.pos_of_ne_zero hv.1) hpl hle ?_
    rw [← hreach]
    rfl

/-- **First fit.** A valid request that meets no block is placed at the least address at which it
fits, and refused only if it fits nowhere. -/
theorem settle_obeys (h : s.Sound) (hv : q.Valid) (hfree : ∀ b ∈ s.blocks, ¬ b.Meets q.region) :
    s.Obeys (Settles s.page s.blocks q) (s.settle q.region) := by
  simp only [settle]
  split
  · rename_i htop
    exact ⟨h, rfl, .full (not_fits_of_top_lt htop)⟩
  · rename_i htop
    split
    · rename_i hnone
      exact settle_empty_obeys h hv hfree (Nat.le_of_not_lt htop) hnone
    · rename_i first hfirst
      split
      · rename_i hroom
        exact settle_front_obeys h hv hfree hfirst hroom
      · rename_i hroom
        split
        · rename_i hnone
          refine ⟨h, rfl, .full ?_⟩
          intro m hfits
          obtain ⟨p, hp, hend, hreach⟩ := fits_behind h hfirst hroom hfits
          obtain ⟨i, hgap⟩ := firstGap?_none h hnone p hp
          exact not_fits_of_gapBehind?_none hgap hfits hend hreach
        · rename_i gap hgap
          exact settle_gap_obeys h hv hfree hfirst hroom hgap

theorem state_settle_of_error {r : Region} {e : Refusal} (h : (s.settle r).answer = .error e) :
    (s.settle r).state = s := by
  revert h
  simp only [settle]
  split
  · simp
  · split
    · simp
    · split
      · simp
      · split <;> simp

end Space
end Unslide
