import Mathlib.Data.Set.Image
import Unslide.Proofs.Space.Lookup
import Unslide.Proofs.Space.Reservation

/-!
# Unslide.Proofs.Space.Relocation

The law of reservation does not depend on where intervals lie in the real address space. Let `φ` map
real addresses to others, so that different mapped addresses stay different. If it is rigid on the
blocks of a space and on the interval of a request, that is, shifts each of them by whole pages,
then the relocated request ends in the relocated blocks, at the same synthetic places.

* `meets_relocate`, `encloses_relocate`, `pieces_relocate`: the geometry of collisions.
* `placesEach_relocate`: placement.
* `Relocates.reserve`: the reservation itself.
* `Relocates.attribution`, `Relocates.placeOf_eq`: look-ups.
-/

namespace Unslide

def Region.relocate (φ : Nat → Nat) (b : Region) : Region := { b with start := φ b.start }

def Request.relocate (φ : Nat → Nat) (q : Request) : Request := { q with start := φ q.start }

@[simp] theorem Region.relocate_start (φ : Nat → Nat) (b : Region) :
    (b.relocate φ).start = φ b.start := rfl
@[simp] theorem Region.relocate_size (φ : Nat → Nat) (b : Region) :
    (b.relocate φ).size = b.size := rfl
@[simp] theorem Region.relocate_place (φ : Nat → Nat) (b : Region) :
    (b.relocate φ).place = b.place := rfl
@[simp] theorem Request.relocate_start (φ : Nat → Nat) (q : Request) :
    (q.relocate φ).start = φ q.start := rfl
@[simp] theorem Request.relocate_size (φ : Nat → Nat) (q : Request) :
    (q.relocate φ).size = q.size := rfl

/-- The map shifts an interval of mapped addresses by whole pages. -/
structure Rigid (φ : Nat → Nat) (X : Set Nat) (page start size : Nat) : Prop where
  mapped : ∀ n < size, start + n ∈ X
  shift : ∀ n < size, φ (start + n) = φ start + n
  offset : pageOffset page (φ start) = pageOffset page start

variable {φ : Nat → Nat} {X : Set Nat} {page : Nat} {b old : Region} {q : Request}

namespace Rigid

theorem part {start size : Nat} (h : Rigid φ X page start size) {k n : Nat} (hn : 0 < n)
    (hle : k + n ≤ size) : Rigid φ X page (start + k) n where
  mapped m hm := by
    rw [Nat.add_assoc]
    exact h.mapped (k + m) (by omega)
  shift m hm := by
    rw [Nat.add_assoc, h.shift (k + m) (by omega), h.shift k (by omega), Nat.add_assoc]
  offset := by
    rw [h.shift k (by omega)]
    exact Space.pageOffset_add_congr h.offset k

theorem map_eq {start size addr : Nat} (h : Rigid φ X page start size) (hle : start ≤ addr)
    (hlt : addr < start + size) : φ addr = φ start + (addr - start) := by
  have hshift := h.shift (addr - start) (by omega)
  rwa [Nat.add_sub_cancel' hle] at hshift

theorem mem {start size addr : Nat} (h : Rigid φ X page start size) (hle : start ≤ addr)
    (hlt : addr < start + size) : addr ∈ X := by
  have hmem := h.mapped (addr - start) (by omega)
  rwa [Nat.add_sub_cancel' hle] at hmem

end Rigid

/-! ## Collisions -/

theorem contains_relocate (hb : Rigid φ X page b.start b.size) {addr : Nat} (h : b.Contains addr) :
    (b.relocate φ).Contains (φ addr) := by
  have hmap := hb.map_eq h.1 h.2
  simp only [Region.Contains, Region.stop, Region.relocate_start, Region.relocate_size] at h ⊢
  omega

/-- If the images of two intervals share an address, so do the intervals. -/
theorem overlap_of_overlap {s t m n : Nat} (hinj : Set.InjOn φ X) (hs : Rigid φ X page s m)
    (ht : Rigid φ X page t n) (hm : 0 < m) (hn : 0 < n) (h : φ s < φ t + n) (h' : φ t < φ s + m) :
    s < t + n ∧ t < s + m := by
  rcases Nat.le_total (φ s) (φ t) with hle | hle
  · have heq : φ (s + (φ t - φ s)) = φ (t + 0) := by
      rw [hs.shift _ (by omega), ht.shift 0 hn]
      omega
    have := hinj (hs.mapped _ (by omega)) (ht.mapped 0 hn) heq
    omega
  · have heq : φ (t + (φ s - φ t)) = φ (s + 0) := by
      rw [ht.shift _ (by omega), hs.shift 0 hm]
      omega
    have := hinj (ht.mapped _ (by omega)) (hs.mapped 0 hm) heq
    omega

theorem meets_relocate (hinj : Set.InjOn φ X) (hb : Rigid φ X page b.start b.size)
    (hq : Rigid φ X page q.start q.size) (hbpos : 0 < b.size) (hqpos : 0 < q.size) :
    (b.relocate φ).Meets (q.relocate φ).region ↔ b.Meets q.region := by
  simp only [Region.Meets, Region.stop, Request.region, Region.relocate_start, Region.relocate_size,
    Request.relocate_start, Request.relocate_size]
  constructor
  · rintro ⟨h, h'⟩
    exact overlap_of_overlap hinj hb hq hbpos hqpos h h'
  · rintro ⟨h, h'⟩
    rcases Nat.le_total b.start q.start with hle | hle
    · have := hb.map_eq hle h'
      omega
    · have := hq.map_eq hle h
      omega

theorem encloses_relocate (hinj : Set.InjOn φ X) (hb : Rigid φ X page b.start b.size)
    (hq : Rigid φ X page q.start q.size) (hqpos : 0 < q.size) :
    (b.relocate φ).Encloses (q.relocate φ) ↔ b.Encloses q := by
  simp only [Region.Encloses, Region.Covers, Region.stop, Request.region, Region.relocate_start,
    Region.relocate_size, Request.relocate_start, Request.relocate_size]
  constructor
  · rintro ⟨⟨h, h'⟩, hlt⟩
    have heq : φ (b.start + (φ q.start - φ b.start)) = φ (q.start + 0) := by
      rw [hb.shift _ (by omega), hq.shift 0 hqpos]
      omega
    have := hinj (hb.mapped _ (by omega)) (hq.mapped 0 hqpos) heq
    omega
  · rintro ⟨⟨h, h'⟩, hlt⟩
    have := hb.map_eq h (by omega)
    omega

/-- The distance of a request from the start of a block that encloses it. -/
theorem sub_relocate (hold : Rigid φ X page old.start old.size) (henc : old.Encloses q)
    (hqpos : 0 < q.size) : φ q.start - φ old.start = q.start - old.start := by
  obtain ⟨⟨hstart, hstop⟩, -⟩ := henc
  simp only [Region.stop, Request.region] at hstart hstop
  have := hold.map_eq hstart (by omega)
  omega

theorem cutsOnPages_relocate (hold : Rigid φ X page old.start old.size) (henc : old.Encloses q)
    (hqpos : 0 < q.size) :
    Space.CutsOnPages page (old.relocate φ) (q.relocate φ) ↔ Space.CutsOnPages page old q := by
  simp only [Space.CutsOnPages, Region.relocate_start, Request.relocate_start,
    Request.relocate_size, sub_relocate hold henc hqpos]

namespace Space

/-! ## Placement -/

/-- The pieces of a relocated block around a relocated request. -/
theorem pieces_relocate (hold : Rigid φ X page old.start old.size) (henc : old.Encloses q)
    (hqpos : 0 < q.size) :
    pieces (old.relocate φ) (q.relocate φ) = (pieces old q).map (Request.relocate φ) := by
  have hsub := sub_relocate hold henc hqpos
  obtain ⟨⟨hstart, hstop⟩, -⟩ := henc
  simp only [Region.stop, Request.region] at hstart hstop
  have hmap := hold.map_eq hstart (by omega)
  have htail : (old.relocate φ).stop - (q.relocate φ).stop = old.stop - q.stop := by
    simp only [Region.stop, Request.stop, Region.relocate_start, Region.relocate_size,
      Request.relocate_start, Request.relocate_size]
    omega
  have hhead : headPiece (old.relocate φ) (q.relocate φ) = (headPiece old q).relocate φ := by
    simp only [headPiece, Request.relocate, Region.relocate, hsub]
  have hbehind : 0 < old.stop - q.stop →
      tailPiece (old.relocate φ) (q.relocate φ) = (tailPiece old q).relocate φ := by
    intro hpos
    simp only [Region.stop, Request.stop] at hpos
    have hle : old.start ≤ q.stop := by
      simp only [Request.stop]
      omega
    have hlt : q.stop < old.start + old.size := by
      simp only [Request.stop]
      omega
    have hend := hold.map_eq hle hlt
    have hstop' : (q.relocate φ).stop = φ q.stop := by
      simp only [Request.stop, Request.relocate_start, Request.relocate_size] at hend ⊢
      omega
    rw [hstop'] at htail
    simp only [tailPiece, htail, hstop', Request.relocate_start, Region.relocate_start,
      Request.relocate_size, hsub]
    rfl
  have hpieces : ∀ (c : Region) (r : Request), pieces c r =
      (if 0 < r.start - c.start then [headPiece c r] else []) ++ [r] ++
        (if 0 < c.stop - r.stop then [tailPiece c r] else []) := fun _ _ => rfl
  rw [hpieces, hpieces, htail, Region.relocate_start, Request.relocate_start, hsub, List.map_append,
    List.map_append, hhead]
  by_cases hpos : 0 < old.stop - q.stop
  · rw [if_pos hpos, if_pos hpos, hbehind hpos]
    split <;> rfl
  · rw [if_neg hpos, if_neg hpos]
    split <;> rfl

theorem fits_relocate {B : Set Region}
    (hoff : pageOffset page (φ q.start) = pageOffset page q.start)
    (m : Nat) : Fits page (Region.relocate φ '' B) (q.relocate φ) m ↔ Fits page B q m := by
  constructor
  · rintro ⟨htop, hapart, hoffset⟩
    exact ⟨htop, fun b hb => hapart (b.relocate φ) ⟨b, hb, rfl⟩, hoffset.trans hoff⟩
  · rintro ⟨htop, hapart, hoffset⟩
    refine ⟨htop, ?_, hoffset.trans hoff.symm⟩
    rintro _ ⟨b, hb, rfl⟩
    exact hapart b hb

theorem isLeast_relocate {B : Set Region} {m : Nat}
    (hoff : pageOffset page (φ q.start) = pageOffset page q.start)
    (h : IsLeast {m | Fits page B q m} m) :
    IsLeast {m | Fits page (Region.relocate φ '' B) (q.relocate φ) m} m :=
  ⟨(fits_relocate hoff m).2 h.1, fun n hn => h.2 ((fits_relocate hoff n).1 hn)⟩

theorem image_insert_block (B : Set Region) (q : Request) (m : Nat) :
    Region.relocate φ '' insert (q.block m) B =
      insert ((q.relocate φ).block m) (Region.relocate φ '' B) :=
  Set.image_insert_eq

theorem placesEach_relocate {B B' : Set Region} {qs : List Request} (h : PlacesEach page B qs B')
    (hoff : ∀ c ∈ qs, pageOffset page (φ c.start) = pageOffset page c.start) :
    PlacesEach page (Region.relocate φ '' B) (qs.map (Request.relocate φ))
      (Region.relocate φ '' B') := by
  induction h with
  | nil => exact .nil
  | @cons B B' q rest m hleast _ ih =>
    have hrest := ih fun c hc => hoff c (by simp [hc])
    rw [image_insert_block] at hrest
    exact .cons (isLeast_relocate (hoff q (by simp)) hleast) hrest

/-- A space at the images of its addresses: its blocks are relocated, and the map is rigid on each
of them. -/
structure Relocates (φ : Nat → Nat) (X : Set Nat) (s t : Space) : Prop where
  page : t.page = s.page
  blocks : t.blocks = Region.relocate φ '' s.blocks
  rigid : ∀ b ∈ s.blocks, Rigid φ X s.page b.start b.size

namespace Relocates

variable {s t : Space}

theorem fresh (page : Nat) : Relocates φ X (aligned page) (aligned page) := by
  refine ⟨rfl, ?_, ?_⟩
  · simp [aligned, blocks_empty]
  · simp [aligned, blocks_empty]

theorem spared_eq (h : Relocates φ X s t) (hs : s.Sound) (hinj : Set.InjOn φ X)
    (hq : Rigid φ X s.page q.start q.size) (hqpos : 0 < q.size) :
    spared t.blocks (q.relocate φ) = Region.relocate φ '' spared s.blocks q := by
  have hmeets : ∀ b ∈ s.blocks, (b.relocate φ).Meets (q.relocate φ).region ↔ b.Meets q.region :=
    fun b hb => meets_relocate hinj (h.rigid b hb) hq (hs.valid b hb).1 hqpos
  ext c
  rw [mem_spared, h.blocks]
  constructor
  · rintro ⟨⟨b, hb, rfl⟩, hfree⟩
    exact ⟨b, ⟨hb, fun hm => hfree ((hmeets b hb).2 hm)⟩, rfl⟩
  · rintro ⟨b, ⟨hb, hfree⟩, rfl⟩
    exact ⟨⟨b, hb, rfl⟩, fun hm => hfree ((hmeets b hb).1 hm)⟩

theorem sdiff_eq (h : Relocates φ X s t) (hs : s.Sound) (hinj : Set.InjOn φ X)
    (hold : old ∈ s.blocks) :
    t.blocks \ {old.relocate φ} = Region.relocate φ '' (s.blocks \ {old}) := by
  ext c
  rw [h.blocks]
  constructor
  · rintro ⟨⟨b, hb, rfl⟩, hne⟩
    exact ⟨b, ⟨hb, fun heq => hne (by rw [heq]; rfl)⟩, rfl⟩
  · rintro ⟨b, ⟨hb, hne⟩, rfl⟩
    refine ⟨⟨b, hb, rfl⟩, fun heq => hne ?_⟩
    have hstart : φ b.start = φ old.start := congrArg Region.start heq
    have hbx := (h.rigid b hb).mapped 0 (hs.valid b hb).1
    have hox := (h.rigid old hold).mapped 0 (hs.valid old hold).1
    exact hs.block_eq_of_start_eq hb hold (hinj hbx hox hstart)

theorem rigid_pieces {page : Nat} (hold : Rigid φ X page old.start old.size) (henc : old.Encloses q)
    (hq : Rigid φ X page q.start q.size) (hqpos : 0 < q.size) :
    ∀ c ∈ pieces old q, Rigid φ X page c.start c.size := by
  obtain ⟨⟨hstart, hstop⟩, -⟩ := henc
  simp only [Region.stop, Request.region] at hstart hstop
  intro c hc
  rcases mem_pieces.1 hc with ⟨hpos, rfl⟩ | rfl | ⟨hpos, rfl⟩
  · have hpart : Rigid φ X page (old.start + 0) (q.start - old.start) :=
      hold.part hpos (by omega)
    exact hpart
  · exact hq
  · simp only [Region.stop, Request.stop] at hpos
    have hpart : Rigid φ X page (old.start + (q.stop - old.start)) (old.stop - q.stop) := by
      simp only [Region.stop, Request.stop]
      exact hold.part hpos (by omega)
    have hend : old.start + (q.stop - old.start) = q.stop := by
      simp only [Request.stop]
      omega
    rw [hend] at hpart
    exact hpart

/-- What a reservation leaves is rigid, too. -/
theorem rigid_of_granted (h : Relocates φ X s t) (hq : Rigid φ X s.page q.start q.size)
    {B' : Set Region} (hlaw : Reserves s.page s.blocks q true (.ok ()) B') :
    ∀ b ∈ B', Rigid φ X s.page b.start b.size := by
  intro b hb
  cases hlaw with
  | carved hv _ hold henc _ hplaces =>
    rcases hplaces.mem_or hb with hin | ⟨c, hc, m, rfl⟩
    · exact h.rigid b hin.1
    · exact rigid_pieces (h.rigid _ hold) henc hq (Nat.pos_of_ne_zero hv.1) c hc
  | settled hv _ hsettles =>
    cases hsettles with
    | room _ =>
      rcases hb with rfl | hin
      · exact hq
      · exact h.rigid b hin.1

/-- The law grants a relocated request if it grants the request. -/
theorem granted (h : Relocates φ X s t) (hs : s.Sound) (hinj : Set.InjOn φ X)
    (hq : Rigid φ X s.page q.start q.size) (hv' : (q.relocate φ).Valid) {B' : Set Region}
    (hlaw : Reserves s.page s.blocks q true (.ok ()) B') :
    Reserves t.page t.blocks (q.relocate φ) true (.ok ()) (Region.relocate φ '' B') := by
  have hqpos : 0 < q.size := Nat.pos_of_ne_zero hv'.1
  cases hlaw with
  | @carved old _ hv _ hold henc hcuts hplaces =>
    have hr := h.rigid old hold
    have hold' : old.relocate φ ∈ t.blocks := by
      rw [h.blocks]
      exact ⟨old, hold, rfl⟩
    rw [h.page]
    refine .carved hv' rfl hold' ((encloses_relocate hinj hr hq hqpos).2 henc)
      ((cutsOnPages_relocate hr henc hqpos).2 hcuts) ?_
    rw [h.sdiff_eq hs hinj hold, pieces_relocate hr henc hqpos]
    exact placesEach_relocate hplaces fun c hc => (rigid_pieces hr henc hq hqpos c hc).offset
  | settled hv hmeets hsettles =>
    cases hsettles with
    | room hleast =>
      refine .settled hv' ?_ ?_
      · rw [h.blocks]
        rintro _ ⟨b, hb, rfl⟩ hm
        have hm' := (meets_relocate hinj (h.rigid b hb) hq (hs.valid b hb).1 hqpos).1 hm
        refine ⟨rfl, fun henc => (hmeets b hb hm').2 ?_⟩
        exact (encloses_relocate hinj (h.rigid b hb) hq hqpos).1 henc
      · rw [h.spared_eq hs hinj hq hqpos, image_insert_block, h.page]
        exact .room (isLeast_relocate hq.offset hleast)

/-- **Reservation commutes with relocation.** If a request is granted, so is the relocated one, and
what the two leave is related as before. -/
theorem reserve (h : Relocates φ X s t) (hs : s.Sound) (ht : t.Sound) (hinj : Set.InjOn φ X)
    (hq : Rigid φ X s.page q.start q.size) (hv' : (q.relocate φ).Valid)
    (hok : (s.reserve q true).answer = .ok ()) :
    (t.reserve (q.relocate φ) true).answer = .ok () ∧
      Relocates φ X (s.reserve q true).state (t.reserve (q.relocate φ) true).state := by
  obtain ⟨-, hpage, hlaw⟩ := reserve_obeys hs q true
  obtain ⟨-, hpage', hlaw'⟩ := reserve_obeys ht (q.relocate φ) true
  rw [hok] at hlaw
  obtain ⟨hanswer, hblocks⟩ :=
    Reserves.unique_of_granted ht.apart (h.granted hs hinj hq hv' hlaw) hlaw'
  refine ⟨hanswer, by rw [hpage', hpage, h.page], hblocks, ?_⟩
  rw [hpage]
  exact h.rigid_of_granted hq hlaw

/-! ## Look-ups -/

theorem mem_relocate (h : Relocates φ X s t) (hb : b ∈ s.blocks) : b.relocate φ ∈ t.blocks := by
  rw [h.blocks]
  exact ⟨b, hb, rfl⟩

theorem sub_eq (h : Relocates φ X s t) (hb : b ∈ s.blocks) {addr : Nat} (hc : b.Contains addr) :
    φ addr - φ b.start = addr - b.start := by
  have := (h.rigid b hb).map_eq hc.1 hc.2
  omega

theorem attribution (h : Relocates φ X s t) (hs : s.Sound) (ht : t.Sound) (hb : b ∈ s.blocks)
    {addr : Nat} (hc : b.Contains addr) : s.attribution addr = t.attribution (φ addr) := by
  rw [attribution_of_contains hs hb hc,
    attribution_of_contains ht (h.mem_relocate hb) (contains_relocate (h.rigid b hb) hc)]
  simp only [Region.fileOffset, Region.relocate_start, h.sub_eq hb hc]
  rfl

/-- The image of an address has the synthetic address that the address has. -/
theorem placeOf_eq (h : Relocates φ X s t) (hb : b ∈ s.blocks) {addr : Nat} (hc : b.Contains addr) :
    (b.relocate φ).placeOf (φ addr) = b.placeOf addr := by
  simp only [Region.placeOf, Region.relocate_start, Region.relocate_place, h.sub_eq hb hc]

end Relocates

end Space
end Unslide
