import Unslide.Proofs.Space.Overlay

/-!
# Unslide.Proofs.Space.Mirror

The space that a reader of remapped records makes. For the reader the synthetic addresses are the
real ones: a request that was placed at an address is a request for this address. The reader is not
told of the pieces that are left around a request that cuts a region. So the reader's space goes on
mirroring the space that was remapped as long as the pieces stay where the region was. It may keep
more: it is not told what was removed either, until something is placed there.

* `cutsInPlace_of_pieces`, `CutsInPlace.place_eq`: where the pieces are.
* `granted_of_room`: what asks for no page offsets is granted as long as there is room behind all
  that was placed.
* `Mirrors.reserve`: a request, in the space and for the reader.
* `Mirrors.block`: an address, in the space and for the reader.
-/

namespace Unslide

/-- The synthetic interval of a region and what it stands for. -/
def Region.mirror (r : Region) : Span := ⟨r.place, r.placeEnd, r.id, r.base⟩

/-- The request of a reader for a request that was placed. -/
def Request.placedAt (q : Request) (place : Nat) : Request := { q with start := place }

namespace Space

/-- The pieces of a region that a request cuts stay where the region was: no address of it moves. -/
def CutsInPlace (s : Space) (q : Request) : Prop :=
  ∀ old ∈ s.blocks, old.Encloses q → ∀ addr, old.Contains addr →
    ((s.reserve q true).state.locate? addr).map Prod.fst = some (old.placeOf addr)

/-- The space `t` of a reader has an interval for every region of `s`, at its synthetic address. The
reader keeps no page offsets, and places everything below `n`. -/
structure Mirrors (n : Nat) (s t : Space) : Prop where
  images : ∀ b ∈ s.blocks, b.mirror ∈ t.spans
  page : t.page = 0
  below : ∀ c ∈ t.blocks, c.placeEnd ≤ n

variable {s t : Space} {q : Request} {old : Region} {m n addr : Nat}

theorem mirror_block (q : Request) (m : Nat) : (q.block m).mirror = (q.placedAt m).span := rfl

/-! ## Requests -/

theorem mem_overlay {l : List Span} {a new : Span} :
    a ∈ overlay l new ↔ a ∈ kept l new ∨ a ∈ laid l new := by
  rw [overlay, List.mem_insertionSort, List.mem_append]

theorem mem_laid_self (l : List Span) (new : Span) : new ∈ laid l new := by
  simp only [laid]
  split
  · split
    · simp [Span.cut]
    · exact List.mem_singleton_self new
  · exact List.mem_singleton_self new

/-- Of a space that keeps no page offsets a request is granted that fits behind everything placed in
it, and placed there or before. -/
theorem granted_of_room (h : s.Sound) (hpage : s.page = 0) (hbelow : ∀ b ∈ s.blocks, b.placeEnd ≤ n)
    (hv : q.Valid) (hroom : n + q.size ≤ top) :
    (s.reserve q true).answer = .ok () ∧
      ∀ b ∈ (s.reserve q true).state.blocks, b.placeEnd ≤ n + q.size := by
  have hfits : Fits s.page (spared s.blocks q) q n := by
    rw [hpage]
    exact ⟨hroom, fun b hb => .inr (hbelow b hb.1), rfl⟩
  obtain ⟨-, -, hlaw⟩ := reserve_obeys h q true
  generalize (s.reserve q true).answer = answer at hlaw
  generalize (s.reserve q true).state.blocks = B at hlaw
  cases hlaw with
  | invalid hno => exact absurd hv hno
  | collision _ hreplace _ _ => cases hreplace
  | misaligned _ _ _ _ hcuts => exact absurd (.inl hpage) hcuts
  | @carved old _ _ _ hold henc _ hplaces =>
    refine ⟨rfl, fun b hb => ?_⟩
    have hrow := pieces_fitInRow henc (h.offsets old hold)
    rcases hplaces.placeEnd_le (h.hole hold) hrow hb with hkept | hend
    · exact Nat.le_trans (hbelow b hkept.1) (Nat.le_add_right _ _)
    · exact Nat.le_trans hend (Nat.le_trans (hbelow old hold) (Nat.le_add_right _ _))
  | settled _ _ hsettles =>
    cases hsettles with
    | full hnone => exact absurd hfits (hnone n)
    | @room m hleast =>
      refine ⟨rfl, ?_⟩
      have hm : m ≤ n := hleast.2 hfits
      rintro b (rfl | hkept)
      · exact Nat.add_le_add_right hm q.size
      · exact Nat.le_trans (hbelow b hkept.1) (Nat.le_add_right _ _)

/-- Every address of a region lies in one of the pieces around what cuts it. -/
theorem mem_piece_of_contains (h : old.Contains addr) :
    ∃ c ∈ pieces old q, c.region.Contains addr := by
  obtain ⟨hge, hlt⟩ := h
  by_cases hhead : addr < q.start
  · refine ⟨headPiece old q, mem_pieces.2 (.inl ⟨by omega, rfl⟩), hge, ?_⟩
    simp only [Region.stop, Request.region, headPiece]
    omega
  · by_cases htail : q.stop ≤ addr
    · refine ⟨tailPiece old q, mem_pieces.2 (.inr (.inr ⟨by omega, rfl⟩)), htail, ?_⟩
      simp only [Region.stop, Request.region, tailPiece] at hlt ⊢
      omega
    · exact ⟨q, mem_pieces.2 (.inr (.inl rfl)), Nat.le_of_not_lt hhead, Nat.lt_of_not_le htail⟩

/-- It is enough to look where the pieces start. -/
theorem cutsInPlace_of_pieces (hs : s.Sound)
    (h : ∀ old ∈ s.blocks, old.Encloses q → ∀ c ∈ pieces old q,
      c.block (old.placeOf c.start) ∈ (s.reserve q true).state.blocks) : s.CutsInPlace q := by
  intro old hold henc addr haddr
  obtain ⟨c, hc, hin⟩ := mem_piece_of_contains (q := q) haddr
  have hge : old.start ≤ c.start := by
    obtain ⟨⟨hstart, hstop⟩, -⟩ := henc
    simp only [Region.stop, Request.region] at hstart hstop
    rcases mem_pieces.1 hc with ⟨-, rfl⟩ | rfl | ⟨-, rfl⟩
    · exact Nat.le_refl _
    · exact hstart
    · simp only [tailPiece, Request.stop]
      omega
  obtain ⟨hfirst, hlast⟩ := hin
  simp only [Request.region] at hfirst
  have hblock : (c.block (old.placeOf c.start)).Contains addr := ⟨hfirst, hlast⟩
  obtain ⟨handle, hlocate, -⟩ :=
    locate?_of_contains (reserve_obeys hs q true).sound (h old hold henc c hc) hblock
  rw [hlocate, Option.map_some, Option.some.injEq]
  simp only [Region.placeOf, Request.block, Request.region]
  omega

/-- A piece of a region that was cut in place is at the synthetic address of its start. -/
theorem CutsInPlace.place_eq (h : s.CutsInPlace q) (hs : s.Sound) (hv : q.Valid)
    (hold : old ∈ s.blocks) (henc : old.Encloses q) {c : Request} (hc : c ∈ pieces old q)
    (hb : c.block m ∈ (s.reserve q true).state.blocks) : m = old.placeOf c.start := by
  obtain ⟨hcv, hstart, hstop⟩ := pieces_inside hv (hs.valid old hold).2 henc c hc
  have hpos : c.start < c.stop := Nat.lt_add_of_pos_right (Nat.pos_of_ne_zero hcv.1)
  have hcut := h old hold henc c.start ⟨hstart, Nat.lt_of_lt_of_le hpos hstop⟩
  have hfirst : (c.block m).Contains c.start := ⟨Nat.le_refl _, hpos⟩
  obtain ⟨handle, hlocate, -⟩ := locate?_of_contains (reserve_obeys hs q true).sound hb hfirst
  rw [hlocate, Option.map_some, Option.some.injEq] at hcut
  simpa [Region.placeOf, Request.block, Request.region] using hcut

/-- For a reader, the pieces of a region that was cut in place are what its interval is cut into. -/
theorem mirror_piece (henc : old.Encloses q) {c : Request} (hc : c ∈ pieces old q) :
    (c.block (old.placeOf c.start)).mirror ∈
      old.mirror.cut (q.block (old.placeOf q.start)).mirror := by
  obtain ⟨⟨hstart, hstop⟩, -⟩ := henc
  simp only [Region.stop, Request.region] at hstart hstop
  simp only [Span.cut, List.mem_append, List.mem_singleton]
  rcases mem_pieces.1 hc with ⟨hpos, rfl⟩ | rfl | ⟨hpos, rfl⟩
  · refine .inl (.inl ?_)
    have hlt : old.mirror.start < (q.block (old.placeOf q.start)).mirror.start := by
      simp only [Region.mirror, Request.block, Region.placeOf]
      omega
    rw [if_pos hlt, List.mem_singleton]
    simp [Region.mirror, Region.placeEnd, Region.placeOf, Request.block, Request.region, headPiece]
  · exact .inl (.inr rfl)
  · right
    simp only [Region.stop, Request.stop] at hpos
    have hlt : (q.block (old.placeOf q.start)).mirror.stop < old.mirror.stop := by
      simp only [Region.mirror, Region.placeEnd, Request.block, Request.region, Region.placeOf]
      omega
    rw [if_pos hlt, List.mem_singleton]
    have hplace : old.place + (q.start + q.size - old.start) =
        old.place + (q.start - old.start) + q.size := by omega
    have hend : old.place + (q.start - old.start) + q.size +
        (old.start + old.size - (q.start + q.size)) = old.place + old.size := by omega
    have hshift : old.place + (q.start - old.start) + q.size - old.place =
        q.start - old.start + q.size := by omega
    simp only [Region.mirror, Region.placeEnd, Region.placeOf, Request.block, Request.region,
      tailPiece, Request.stop, Region.stop, hplace, hend, hshift]

namespace Mirrors

theorem start (n alignment : Nat) : Mirrors n (aligned alignment) (aligned 0) where
  images := by
    rw [aligned, blocks_empty]
    rintro b ⟨⟩
  page := rfl
  below := by
    rw [aligned, blocks_empty]
    rintro b ⟨⟩

theorem mono {n' : Nat} (h : Mirrors n s t) (hle : n ≤ n') : Mirrors n' s t :=
  ⟨h.images, h.page, fun c hc => Nat.le_trans (h.below c hc) hle⟩

theorem not_meets (hs : s.Sound) {b c : Region} (hb : b ∈ s.blocks) (hc : c ∈ s.blocks)
    (hne : b ≠ c) : ¬ b.mirror.Meets c.mirror := by
  rintro ⟨hbc, hcb⟩
  simp only [Region.mirror] at hbc hcb
  have := hs.placed_apart hb hc hne
  omega

/-- The interval of a region that a request does not meet is not dropped for the reader. -/
theorem mem_overlay_of_spared (h : Mirrors n s t) (hs : (s.reserve q true).state.Sound)
    (hv : q.Valid) (hm : q.block m ∈ (s.reserve q true).state.blocks) {b : Region}
    (hspared : b ∈ spared s.blocks q) (hb : b ∈ (s.reserve q true).state.blocks) :
    b.mirror ∈ overlay t.spans (q.block m).mirror := by
  refine mem_overlay.2 (.inl ?_)
  simp only [kept, List.mem_filter, decide_eq_true_eq]
  refine ⟨h.images b hspared.1, not_meets hs hb hm ?_⟩
  rintro rfl
  have hpos := Nat.pos_of_ne_zero hv.1
  exact hspared.2 ⟨Nat.lt_add_of_pos_right hpos, Nat.lt_add_of_pos_right hpos⟩

/-- A request that cuts a region in place cuts the interval of this region for the reader. -/
theorem laid_of_cut (h : Mirrors n s t) (ht : t.Sound) (hold : old ∈ s.blocks)
    (henc : old.Encloses q) (hv : (q.placedAt (old.placeOf q.start)).Valid) :
    laid t.spans (q.block (old.placeOf q.start)).mirror =
      old.mirror.cut (q.block (old.placeOf q.start)).mirror := by
  obtain ⟨c, hc, hspan⟩ := (mem_spans ht).1 (h.images old hold)
  have hencSpan : c.span.Encloses (q.placedAt (old.placeOf q.start)).span := by
    obtain ⟨⟨hstart, hstop⟩, hlt⟩ := henc
    rw [hspan]
    simp only [Region.stop, Request.region, Span.Encloses, Region.mirror, Region.placeEnd,
      Request.span, Request.placedAt, Request.stop, Region.placeOf] at hstart hstop hlt ⊢
    omega
  rw [mirror_block, laid_of_encloses ht hv hc (encloses_span.1 hencSpan), hspan]

/-- Every region that a granted request leaves is an interval for the reader, once the request was
laid over the intervals of the reader where it was placed. -/
theorem mem_overlay_of_granted (h : Mirrors n s t) (hs : s.Sound) (ht : t.Sound)
    (hok : (s.reserve q true).answer = .ok ()) (hcuts : s.CutsInPlace q)
    (hm : q.block m ∈ (s.reserve q true).state.blocks) (hv' : (q.placedAt m).Valid) {b : Region}
    (hb : b ∈ (s.reserve q true).state.blocks) :
    b.mirror ∈ overlay t.spans (q.block m).mirror := by
  obtain ⟨hsound, -, hlaw⟩ := reserve_obeys hs q true
  have hleft := hb
  rw [hok] at hlaw
  generalize (s.reserve q true).state.blocks = B at hlaw hleft
  cases hlaw with
  | @carved old _ hv _ hold henc _ hplaces =>
    have hplaceOf : ∀ {c : Request} {place : Nat}, c ∈ pieces old q →
        c.block place ∈ (s.reserve q true).state.blocks → place = old.placeOf c.start :=
      fun hc hin => hcuts.place_eq hs hv hold henc hc hin
    rcases hplaces.mem_or hleft with hkept | ⟨c, hc, place, rfl⟩
    · rw [← spared_of_encloses hs hv hold henc] at hkept
      exact h.mem_overlay_of_spared hsound hv hm hkept hb
    · have hq : q ∈ pieces old q := mem_pieces.2 (.inr (.inl rfl))
      cases hplaceOf hq hm
      cases hplaceOf hc hb
      refine mem_overlay.2 (.inr ?_)
      rw [h.laid_of_cut ht hold henc hv']
      exact mirror_piece henc hc
  | settled hv _ hsettles =>
    cases hsettles with
    | room _ =>
      rcases hleft with rfl | hkept
      · rw [hsound.block_eq_of_start_eq hb hm rfl]
        exact mem_overlay.2 (.inr (mem_laid_self _ _))
      · exact h.mem_overlay_of_spared hsound hv hm hkept hb

/-- A request that is granted, and cuts in place, is granted for the reader where it was placed, as
long as there is room for it. -/
theorem reserve (h : Mirrors n s t) (hs : s.Sound) (ht : t.Sound)
    (hok : (s.reserve q true).answer = .ok ()) (hcuts : s.CutsInPlace q)
    (hm : q.block m ∈ (s.reserve q true).state.blocks) (hroom : n + q.size ≤ top) :
    (t.reserve (q.placedAt m) true).answer = .ok () ∧
      Mirrors (n + q.size) (s.reserve q true).state (t.reserve (q.placedAt m) true).state := by
  have hsound := (reserve_obeys hs q true).sound
  have hv : (q.placedAt m).Valid :=
    ⟨Nat.ne_of_gt (hsound.valid _ hm).1, hsound.placeEnd_le_top hm⟩
  obtain ⟨hgranted, hbelow⟩ := granted_of_room ht h.page h.below hv hroom
  refine ⟨hgranted, ?_, (reserve_obeys ht _ true).page.trans h.page, hbelow⟩
  intro b hb
  rw [spans_reserve ht, hgranted]
  exact h.mem_overlay_of_granted hs ht hok hcuts hm hv hb

/-- An address of a region is, for the reader, an address at which the same number and file offset
are found. -/
theorem block (h : Mirrors n s t) (ht : t.Sound) {b : Region} (hb : b ∈ s.blocks)
    (hc : b.Contains addr) :
    ∃ c ∈ t.blocks, c.Contains (b.placeOf addr) ∧ c.id = b.id ∧
      c.fileOffset (b.placeOf addr) = b.fileOffset addr := by
  obtain ⟨c, hcin, hspan⟩ := (mem_spans ht).1 (h.images b hb)
  simp only [Region.span, Region.mirror, Span.mk.injEq] at hspan
  obtain ⟨hstart, hstop, hid, hbase⟩ := hspan
  obtain ⟨hge, hlt⟩ := hc
  refine ⟨c, hcin, ?_, hid, ?_⟩
  · simp only [Region.Contains, hstart, hstop, Region.placeOf, Region.placeEnd]
    simp only [Region.stop] at hlt
    omega
  · simp only [Region.fileOffset, hstart, hbase, Region.placeOf, Nat.add_sub_cancel_left]

end Mirrors

end Space
end Unslide
