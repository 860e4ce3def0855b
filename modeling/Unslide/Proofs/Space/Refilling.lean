import Unslide.Proofs.Space.Granting
import Unslide.Proofs.Space.Packing
import Unslide.Proofs.Space.Translation

/-!
# Unslide.Proofs.Space.Refilling

Histories of whole pages. All requests lie at one offset in their pages, are whole pages long, and
ask for addresses of no region, for a part of one region, or for all of one. Then the space never
gets a hole: what a request takes out of a region goes back into the room that the region leaves,
piece by piece in the old order, and what is new goes behind all others. So every request is
granted, and no address is ever moved.

* `PlacesEach.in_row`: requests in a row go side by side into the lowest hole.
* `Refills.packs`, `Refills.translate?_eq`: what a request leaves that refills the room of a region.
* `exists_refills`: each request of a history does so.
* `packed_of_granular`: a whole history.
-/

namespace Unslide

/-- The request is for addresses of no block, for a part of a block, or for all of one. -/
inductive Request.Nests (q : Request) (B : Set Region) : Prop where
  | free : (∀ b ∈ B, ¬ b.Meets q.region) → q.Nests B
  | part {old : Region} : old ∈ B → old.Encloses q → q.Nests B
  | whole {old : Region} : old ∈ B → old.start = q.start → old.size = q.size → q.Nests B

/-- The requests follow each other from `x` to `y`. -/
def Consecutive : Nat → List Request → Nat → Prop
  | x, [], y => x = y
  | x, q :: rest, y => q.start = x ∧ Consecutive q.stop rest y

namespace Consecutive

variable {x y addr : Nat} {qs : List Request} {q c : Request}

theorem le (h : Consecutive x qs y) : x ≤ y := by
  induction qs generalizing x with
  | nil => exact Nat.le_of_eq h
  | cons q rest ih =>
    obtain ⟨rfl, hrest⟩ := h
    exact Nat.le_trans (Nat.le_add_right _ _) (ih hrest)

theorem inside (h : Consecutive x qs y) (hc : c ∈ qs) : x ≤ c.start ∧ c.stop ≤ y := by
  induction qs generalizing x with
  | nil => cases hc
  | cons first rest ih =>
    obtain ⟨rfl, hrest⟩ := h
    rcases List.mem_cons.1 hc with rfl | hc
    · exact ⟨Nat.le_refl _, hrest.le⟩
    · obtain ⟨hstart, hstop⟩ := ih hrest hc
      exact ⟨Nat.le_trans (Nat.le_add_right _ _) hstart, hstop⟩

/-- Every address from `x` to `y` is asked for. -/
theorem exists_contains (h : Consecutive x qs y) (hx : x ≤ addr) (hy : addr < y) :
    ∃ c ∈ qs, c.region.Contains addr := by
  induction qs generalizing x with
  | nil =>
    have heq : x = y := h
    omega
  | cons q rest ih =>
    obtain ⟨rfl, hrest⟩ := h
    by_cases hq : addr < q.stop
    · exact ⟨q, List.mem_cons_self, hx, hq⟩
    · obtain ⟨c, hc, hin⟩ := ih hrest (Nat.le_of_not_lt hq)
      exact ⟨c, List.mem_cons_of_mem _ hc, hin⟩

end Consecutive

namespace Space

/-- Each request nests in the space that the requests before it leave. -/
def Nested : Space → List Request → Prop
  | _, [] => True
  | s, q :: rest => q.Nests s.blocks ∧ Nested (s.reserve q true).state rest

/-- The calls that reserve intervals which may take the room of the regions that they meet. -/
def replacements (qs : List Request) : List Call := qs.map fun q => .reserve q true

/-- The requests take the room of `old`, which is a region or starts behind all of them. -/
structure Refills (s t : Space) (o hi : Nat) (old : Region) (qs : List Request) : Prop where
  room : old ∈ s.blocks ∨ old.place = hi
  offset : pageOffset s.page old.place = pageOffset s.page old.start
  hole : Hole (s.blocks \ {old}) old.place old.placeEnd
  row : Consecutive old.start qs old.stop
  granular : ∀ c ∈ qs, c.Granular (grain s.page) o
  places : PlacesEach s.page (s.blocks \ {old}) qs t.blocks

variable {s t : Space} {q : Request} {page o lo hi y m addr place : Nat} {old b : Region}
  {B B' : Set Region} {qs : List Request}

/-! ## Requests in a row -/

/-- The pieces of a region follow each other from its start to its end. -/
theorem consecutive_pieces (henc : old.Encloses q) :
    Consecutive old.start (pieces old q) old.stop := by
  obtain ⟨⟨hstart, hstop⟩, -⟩ := henc
  simp only [Request.region] at hstart hstop
  have htail : Consecutive q.stop
      (if 0 < old.stop - q.stop then [tailPiece old q] else []) old.stop := by
    split
    · refine ⟨rfl, ?_⟩
      simp only [Consecutive, tailPiece, Request.stop, Region.stop] at *
      omega
    · simp only [Consecutive, Request.stop, Region.stop] at *
      omega
  by_cases hhead : 0 < q.start - old.start
  · simp only [pieces, if_pos hhead]
    exact ⟨rfl, (Nat.add_sub_of_le hstart).symm, htail⟩
  · simp only [pieces, if_neg hhead]
    exact ⟨by omega, htail⟩

/-- Requests in a row, placed one after the other, go side by side into the lowest hole if they fill
it: there is no room for any of them before it. -/
theorem PlacesEach.in_row (h : PlacesEach page B qs B') :
    ∀ {m x : Nat}, Consecutive x qs y → (∀ n, lo ≤ n → n < m → Takes B n) →
      Hole B m (m + (y - x)) → pageOffset page m = pageOffset page x →
      (∀ c ∈ qs, c.size ≠ 0 ∧ pageOffset page c.start = lo) →
      ∀ b, b ∈ B' ↔ b ∈ B ∨ ∃ c ∈ qs, b = c.block (m + (c.start - x)) := by
  induction h with
  | nil => simp
  | @cons B B' q rest place hleast _ ih =>
    intro m x hrow hlow hhole hoff hqs b
    obtain ⟨rfl, hrest⟩ := hrow
    obtain ⟨hpos, hlo⟩ := hqs q List.mem_cons_self
    have hstop := hrest.le
    simp only [Request.stop] at hrest hstop
    have hplace : place = m := by
      have hle : place ≤ m := hleast.2 (hhole.fits hoff (by omega))
      have hge : lo ≤ place := by
        rw [← hlo, ← hleast.1.offset]
        exact pageOffset_le page place
      by_contra hne
      obtain ⟨c, hc, htaken⟩ := hlow place hge (Nat.lt_of_le_of_ne hle hne)
      have hapart := hleast.1.apart c hc
      omega
    subst hplace
    have hlow' : ∀ n, lo ≤ n → n < place + q.size → Takes (insert (q.block place) B) n := by
      intro n hn hlt
      by_cases hbefore : n < place
      · obtain ⟨c, hc, htaken⟩ := hlow n hn hbefore
        exact ⟨c, .inr hc, htaken⟩
      · exact ⟨q.block place, .inl rfl, Nat.le_of_not_lt hbefore, hlt⟩
    have hhole' : Hole (insert (q.block place) B) (place + q.size)
        (place + q.size + (y - (q.start + q.size))) := by
      rw [show place + q.size + (y - (q.start + q.size)) = place + (y - q.start) by omega]
      exact hhole.block (Nat.le_refl place)
    have hmore := ih hrest hlow' hhole' (pageOffset_add_congr hoff q.size)
      (fun c hc => hqs c (List.mem_cons_of_mem _ hc)) b
    have hshift : ∀ c ∈ rest, place + q.size + (c.start - (q.start + q.size)) =
        place + (c.start - q.start) := by
      intro c hc
      have hstart := (hrest.inside hc).1
      omega
    have hsame : (∃ c ∈ rest, b = c.block (place + q.size + (c.start - (q.start + q.size)))) ↔
        ∃ c ∈ rest, b = c.block (place + (c.start - q.start)) :=
      exists_congr fun c => and_congr_right fun hc => by rw [hshift c hc]
    rw [hmore, Set.mem_insert_iff, hsame, or_assoc, or_left_comm]
    simp only [List.exists_mem_cons_iff, Nat.sub_self, Nat.add_zero]

namespace Refills

/-- The blocks behind a request: those before it without `old`, and the requests where `old` had
their addresses. -/
theorem mem_blocks (h : Packs s o hi) (hr : Refills s t o hi old qs) :
    b ∈ t.blocks ↔ (b ∈ s.blocks ∧ b ≠ old) ∨ ∃ c ∈ qs, b = c.block (old.placeOf c.start) := by
  have hsize : old.place + (old.stop - old.start) = old.placeEnd := by
    simp only [Region.stop, Region.placeEnd]
    omega
  have hlow : ∀ n, o % grain s.page ≤ n → n < old.place → Takes (s.blocks \ {old}) n := by
    intro n hn hlt
    have hend : old.place ≤ hi := by
      rcases hr.room with hold | rfl
      · exact Nat.le_trans (Nat.le_add_right _ _) (h.placeEnd_le hold)
      · exact Nat.le_refl _
    obtain ⟨c, hc, htaken⟩ := (h.takes n).2 ⟨hn, Nat.lt_of_lt_of_le hlt hend⟩
    refine ⟨c, ⟨hc, ?_⟩, htaken⟩
    rintro rfl
    omega
  refine hr.places.in_row hr.row hlow ?_ hr.offset ?_ b
  · rw [hsize]
    exact hr.hole
  · intro c hc
    obtain ⟨hstart, -, hvalid⟩ := hr.granular c hc
    rw [pageOffset_eq_mod]
    exact ⟨hvalid.1, hstart⟩

/-- An address of `old` is in a new block and has there the synthetic address that it had. -/
theorem exists_of_contains (h : Packs s o hi) (hr : Refills s t o hi old qs)
    (hc : old.Contains addr) :
    ∃ b ∈ t.blocks, b.Contains addr ∧ b.placeOf addr = old.placeOf addr := by
  obtain ⟨c, hin, hca⟩ := hr.row.exists_contains hc.1 hc.2
  refine ⟨_, (hr.mem_blocks h).2 (.inr ⟨c, hin, rfl⟩), hca, ?_⟩
  have hstart := (hr.row.inside hin).1
  have hle := hca.1
  simp only [Region.placeOf, Request.block, Request.region] at hle ⊢
  omega

theorem takes_iff (h : Packs s o hi) (hr : Refills s t o hi old qs) :
    Takes t.blocks m ↔ Takes s.blocks m ∨ (old.place ≤ m ∧ m < old.placeEnd) := by
  constructor
  · rintro ⟨b, hb, htaken⟩
    rcases (hr.mem_blocks h).1 hb with ⟨hold, -⟩ | ⟨c, hc, rfl⟩
    · exact .inl ⟨b, hold, htaken⟩
    · obtain ⟨hstart, hstop⟩ := hr.row.inside hc
      right
      simp only [Region.placeEnd, Region.placeOf, Region.stop, Request.stop, Request.block,
        Request.region] at htaken hstart hstop ⊢
      omega
  · intro htaken
    by_cases hold : old.place ≤ m ∧ m < old.placeEnd
    · have hc : old.Contains (old.start + (m - old.place)) := by
        simp only [Region.Contains, Region.stop, Region.placeEnd] at hold ⊢
        omega
      obtain ⟨b, hb, hcb, hplace⟩ := hr.exists_of_contains h hc
      have hin := placeOf_mem hcb
      rw [hplace, show old.placeOf (old.start + (m - old.place)) = m by
        simp only [Region.placeOf]
        omega] at hin
      exact ⟨b, hb, hin⟩
    · obtain ⟨b, hb, hbm⟩ := htaken.resolve_right hold
      refine ⟨b, (hr.mem_blocks h).2 (.inl ⟨hb, ?_⟩), hbm⟩
      rintro rfl
      exact hold hbm

/-- A request leaves a space packed. -/
theorem packs (h : Packs s o hi) (hr : Refills s t o hi old qs) (hsound : t.Sound)
    (hpage : t.page = s.page) : ∃ hi', Packs t o hi' := by
  have hblock : ∀ b ∈ t.blocks, b.start % grain s.page = o % grain s.page ∧
      grain s.page ∣ b.size := by
    intro b hb
    rcases (hr.mem_blocks h).1 hb with ⟨hold, -⟩ | ⟨c, hc, rfl⟩
    · exact ⟨h.starts b hold, h.sizes b hold⟩
    · obtain ⟨hstart, hsize, -⟩ := hr.granular c hc
      exact ⟨hstart, hsize⟩
  have hle := h.le
  refine ⟨max hi old.placeEnd, hsound, ?starts, ?sizes, ?takes, by rw [hpage]; omega⟩
  case starts =>
    rw [hpage]
    exact fun b hb => (hblock b hb).1
  case sizes =>
    rw [hpage]
    exact fun b hb => (hblock b hb).2
  case takes =>
    intro m
    rw [hpage, hr.takes_iff h, h.takes m]
    have hplace : o % grain s.page ≤ old.place ∧ (old.placeEnd ≤ hi ∨ old.place = hi) := by
      rcases hr.room with hold | hend
      · have hfirst := (takes_ends hold (h.sound.valid old hold).1).1
        exact ⟨((h.takes old.place).1 hfirst).1, .inl (h.placeEnd_le hold)⟩
      · exact ⟨hend ▸ h.le, .inr hend⟩
    simp only [Region.placeEnd] at hplace ⊢
    omega

/-- No address is moved. -/
theorem translate?_eq (h : Packs s o hi) (hr : Refills s t o hi old qs) (hsound : t.Sound)
    (hsome : s.translate? addr = some place) : t.translate? addr = some place := by
  obtain ⟨r, hlive, hc, rfl⟩ := (translate?_eq_some_iff h.sound).1 hsome
  have hb : r.bare ∈ s.blocks := mem_blocks_iff_live.2 ⟨r, hlive, rfl⟩
  have hkept : ∃ b ∈ t.blocks, b.Contains addr ∧ b.placeOf addr = r.placeOf addr := by
    by_cases heq : r.bare = old
    · subst heq
      have hfound := hr.exists_of_contains h (show r.bare.Contains addr from hc)
      exact hfound
    · exact ⟨r.bare, (hr.mem_blocks h).2 (.inl ⟨hb, heq⟩), hc, rfl⟩
  obtain ⟨b, hbt, hcb, hplace⟩ := hkept
  obtain ⟨p, hp, rfl⟩ := mem_blocks_iff_live.1 hbt
  exact (translate?_eq_some_iff hsound).2 ⟨p, hp, hcb, hplace⟩

end Refills

/-! ## One request -/

theorem granular_pieces {g : Nat} (hq : q.Granular g o) (hstart : old.start % g = o % g)
    (hsize : g ∣ old.size) (htop : old.stop ≤ top) (henc : old.Encloses q) :
    ∀ c ∈ pieces old q, c.Granular g o := by
  have hstop : q.stop % g = o % g := by
    rw [Request.stop, Nat.add_mod, Nat.mod_eq_zero_of_dvd hq.size, Nat.add_zero, Nat.mod_mod,
      hq.start]
  have hend : old.stop % g = o % g := by
    rw [Region.stop, Nat.add_mod, Nat.mod_eq_zero_of_dvd hsize, Nat.add_zero, Nat.mod_mod, hstart]
  intro c hc
  have hvalid := (pieces_inside hq.valid htop henc c hc).1
  rcases mem_pieces.1 hc with ⟨-, rfl⟩ | rfl | ⟨-, rfl⟩
  · have hhead := Nat.sub_mod_eq_zero_of_mod_eq (hq.start.trans hstart.symm)
    exact ⟨hstart, Nat.dvd_of_mod_eq_zero hhead, hvalid⟩
  · exact hq
  · have htail := Nat.sub_mod_eq_zero_of_mod_eq (hend.trans hstop.symm)
    exact ⟨hstop, Nat.dvd_of_mod_eq_zero htail, hvalid⟩

/-- Cuts at the offset of the region are cuts between its pages. -/
theorem cutsOnPages_of_granular (hq : q.Granular (grain page) o)
    (hstart : old.start % grain page = o % grain page) : CutsOnPages page old q := by
  by_cases hpage : page = 0
  · exact .inl hpage
  · rw [grain, if_neg hpage] at hstart
    obtain ⟨hqstart, hqsize, -⟩ := hq
    rw [grain, if_neg hpage] at hqstart hqsize
    have hhead := Nat.sub_mod_eq_zero_of_mod_eq (hqstart.trans hstart.symm)
    refine .inr ⟨hhead, ?_⟩
    rw [Nat.add_mod, hhead, Nat.mod_eq_zero_of_dvd hqsize, Nat.zero_mod]

/-- A request that fits somewhere is placed. -/
theorem placesEach_of_settles {step : Step Space (Except Refusal Unit)}
    (h : s.Obeys (Settles s.page B q) step) (hfits : Fits s.page B q m) :
    step.answer = .ok () ∧ PlacesEach s.page B [q] step.state.blocks := by
  obtain ⟨-, -, hlaw⟩ := h
  generalize step.answer = answer at hlaw
  generalize step.state.blocks = B' at hlaw
  cases hlaw with
  | room hleast => exact ⟨rfl, .cons hleast .nil⟩
  | full hnone => exact absurd hfits (hnone m)

/-- A request for addresses of no region goes behind all others. -/
theorem refills_free (h : Packs s o hi) (hq : q.Granular (grain s.page) o)
    (hfree : ∀ b ∈ s.blocks, ¬ b.Meets q.region) :
    (s.reserve q true).answer = .ok () ∧
      Refills s (s.reserve q true).state o hi (q.block hi) [q] := by
  have hs := h.sound
  have hpos := Nat.pos_of_ne_zero hq.valid.1
  have hnew : q.block hi ∉ s.blocks := by
    intro hin
    refine hfree _ hin ?_
    simp only [Region.Meets, Region.stop, Request.block, Request.region]
    omega
  have hoff : pageOffset s.page hi = pageOffset s.page q.start := by
    rw [pageOffset_eq_mod, pageOffset_eq_mod, h.end_mod, hq.start]
  have hhole : Hole s.blocks hi (hi + q.size) :=
    ⟨h.room_behind hq hfree, fun b hb => .inr (h.placeEnd_le hb)⟩
  have hsettles : s.Obeys (Settles s.page (spared s.blocks q) q) (s.reserve q true) :=
    settles_of_not_encloses hs hq.valid fun b hb hmeets => absurd hmeets (hfree b hb)
  rw [spared_of_free hfree] at hsettles
  obtain ⟨hok, hplaces⟩ := placesEach_of_settles hsettles (hhole.fits hoff (Nat.le_refl _))
  rw [← Set.sdiff_singleton_eq_self hnew] at hhole hplaces
  exact ⟨hok, .inr rfl, hoff, hhole, ⟨rfl, rfl⟩, by simpa using hq, hplaces⟩

/-- A request for all addresses of a region takes its room. -/
theorem refills_whole (h : Packs s o hi) (hq : q.Granular (grain s.page) o) (hold : old ∈ s.blocks)
    (hstart : old.start = q.start) (hsize : old.size = q.size) :
    (s.reserve q true).answer = .ok () ∧ Refills s (s.reserve q true).state o hi old [q] := by
  have hs := h.sound
  have hpos := Nat.pos_of_ne_zero hq.valid.1
  have hcov : old.Covers q.region := by
    simp only [Region.Covers, Region.stop, Request.region]
    omega
  have hmeets : old.Meets q.region := by
    simp only [Region.Meets, Region.stop, Request.region]
    omega
  have hnot : ∀ b ∈ s.blocks, b.Meets q.region → true = true ∧ ¬ b.Encloses q := by
    intro b hb hbm
    refine ⟨rfl, ?_⟩
    rintro ⟨-, hlt⟩
    rw [hs.eq_of_covers hold hcov hb hbm] at hlt
    omega
  have hsettles := settles_of_not_encloses hs hq.valid hnot
  rw [spared_of_covers hs hold hcov hmeets] at hsettles
  have hhole := hs.hole hold
  have hoff := hs.offsets old hold
  obtain ⟨hok, hplaces⟩ := placesEach_of_settles hsettles
    (hhole.fits (hstart ▸ hoff) (by rw [← hsize]; exact Nat.le_refl _))
  refine ⟨hok, .inl hold, hoff, hhole, ⟨hstart.symm, ?_⟩, by simpa using hq, hplaces⟩
  simp only [Consecutive, Request.stop, Region.stop]
  omega

/-- A request for a part of a region is put between what is left of it. -/
theorem refills_part (h : Packs s o hi) (hq : q.Granular (grain s.page) o) (hold : old ∈ s.blocks)
    (henc : old.Encloses q) :
    (s.reserve q true).answer = .ok () ∧
      Refills s (s.reserve q true).state o hi old (pieces old q) := by
  have hs := h.sound
  have hstart := h.starts old hold
  have hpieces := granular_pieces hq hstart (h.sizes old hold) (hs.valid old hold).2 henc
  have hhole := hs.hole hold
  have hoff := hs.offsets old hold
  have hin := hold
  obtain ⟨slot, r, hr, rfl⟩ := hold
  rw [reserve_of_encloses hs hq.valid hr henc]
  obtain ⟨hok, hplaces⟩ :=
    (carve_granted hs hq.valid hr henc (cutsOnPages_of_granular hq hstart)).law
  exact ⟨hok, .inl hin, hoff, hhole, consecutive_pieces henc, hpieces, hplaces⟩

/-- Each request of a history refills the room of one region. -/
theorem exists_refills (h : Packs s o hi) (hq : q.Granular (grain s.page) o)
    (hnests : q.Nests s.blocks) :
    (s.reserve q true).answer = .ok () ∧
      ∃ old qs, Refills s (s.reserve q true).state o hi old qs := by
  cases hnests with
  | free hfree => exact (refills_free h hq hfree).imp_right fun hr => ⟨_, _, hr⟩
  | part hold henc => exact (refills_part h hq hold henc).imp_right fun hr => ⟨_, _, hr⟩
  | whole hold hstart hsize =>
    exact (refills_whole h hq hold hstart hsize).imp_right fun hr => ⟨_, _, hr⟩

/-! ## Histories -/

theorem packs_aligned (alignment o : Nat) :
    Packs (aligned alignment) o (o % grain (pageSize alignment)) where
  sound := sound_aligned alignment
  starts := by simp [aligned, blocks_empty]
  sizes := by simp [aligned, blocks_empty]
  takes m := by
    refine iff_of_false ?_ (fun hm => Nat.lt_irrefl _ (Nat.lt_of_le_of_lt hm.1 hm.2))
    rintro ⟨b, hb, -⟩
    rw [aligned, blocks_empty] at hb
    cases hb
  le := Nat.le_refl _

theorem nested_append {before after : List Request} :
    Nested s (before ++ after) ↔
      Nested s before ∧ Nested (s.performAll (replacements before)) after := by
  induction before generalizing s with
  | nil =>
    simp only [List.nil_append, Nested, true_and]
    rfl
  | cons q rest ih =>
    simp only [List.cons_append, Nested, ih, and_assoc]
    rfl

theorem performAll_replacements_append (s : Space) (before after : List Request) :
    s.performAll (replacements (before ++ after)) =
      (s.performAll (replacements before)).performAll (replacements after) := by
  simp only [performAll, replacements, List.map_append, List.foldl_append]

/-- A history leaves a space packed, and every address where it was. -/
theorem packs_performAll (h : Packs s o hi) (hg : ∀ q ∈ qs, q.Granular (grain s.page) o)
    (hn : Nested s qs) :
    let t := s.performAll (replacements qs)
    t.page = s.page ∧ (∃ hi', Packs t o hi') ∧
      ∀ addr place, s.translate? addr = some place → t.translate? addr = some place := by
  induction qs generalizing s hi with
  | nil => exact ⟨rfl, ⟨hi, h⟩, fun _ _ hsome => hsome⟩
  | cons q rest ih =>
    obtain ⟨hnests, hrest⟩ := hn
    obtain ⟨-, old, pieces, hr⟩ := exists_refills h (hg q List.mem_cons_self) hnests
    obtain ⟨hsound, hpage, -⟩ := reserve_obeys h.sound q true
    obtain ⟨hi', hpacks⟩ := hr.packs h hsound hpage
    obtain ⟨hpage', hpacked, hkept⟩ := ih hpacks
      (fun c hc => by
        rw [hpage]
        exact hg c (List.mem_cons_of_mem _ hc)) hrest
    refine ⟨hpage'.trans hpage, hpacked, ?_⟩
    intro addr place hsome
    exact hkept addr place (hr.translate?_eq h hsound hsome)

/-- **Histories of whole pages leave no hole.** On a space without regions, let all requests be of
whole pages at one offset, and each of them for addresses of no region, for a part of a region, or
for all of one. Then every request is granted, the synthetic intervals lie side by side from the
offset on and are as long as the regions together, and no address is ever moved. -/
theorem packed_of_granular {alignment : Nat}
    (hg : ∀ q ∈ qs, q.Granular (grain (pageSize alignment)) o)
    (hn : Nested (aligned alignment) qs) :
    let after := fun cs => (aligned alignment).performAll (replacements cs)
    (∀ before q behind, qs = before ++ q :: behind →
      ((after before).reserve q true).answer = .ok ()) ∧
    (after qs).Packed (o % grain (pageSize alignment)) ∧
    ∀ before behind, qs = before ++ behind → ∀ addr place,
      (after before).translate? addr = some place → (after qs).translate? addr = some place := by
  intro after
  have hstart := packs_aligned alignment o
  refine ⟨?granted, ?packed, ?kept⟩
  case granted =>
    rintro before q behind rfl
    obtain ⟨hbefore, hnests, -⟩ := nested_append.1 hn
    obtain ⟨hpage, ⟨hi, hpacks⟩, -⟩ := packs_performAll hstart
      (fun c hc => hg c (List.mem_append_left _ hc)) hbefore
    exact (exists_refills hpacks (hpage ▸ hg q (by simp)) hnests).1
  case packed =>
    obtain ⟨hpage, ⟨hi, hpacks⟩, -⟩ := packs_performAll hstart hg hn
    have hpacked := hpacks.packed
    rw [hpage] at hpacked
    exact hpacked
  case kept =>
    rintro before behind rfl addr place hsome
    obtain ⟨hbefore, hbehind⟩ := nested_append.1 hn
    obtain ⟨hpage, ⟨hi, hpacks⟩, -⟩ := packs_performAll hstart
      (fun c hc => hg c (List.mem_append_left _ hc)) hbefore
    obtain ⟨-, -, hkept⟩ := packs_performAll hpacks
      (fun c hc => hpage ▸ hg c (List.mem_append_right _ hc)) hbehind
    simp only [after, performAll_replacements_append]
    exact hkept addr place hsome

/-- Two regions at offset `0x10`, the middle page of the first and all of the second taken by
others, then a third region. The last page of the first one stays where it was. -/
theorem packed_around_carving :
    let qs : List Request := [⟨0x10010, 0x3000, 1, 0⟩, ⟨0x30010, 0x1000, 2, 0⟩,
      ⟨0x11010, 0x1000, 3, 0⟩, ⟨0x30010, 0x1000, 4, 0⟩, ⟨0x20010, 0x2000, 5, 0⟩]
    let s := (aligned 4096).performAll (replacements qs)
    Nested (aligned 4096) qs ∧ s.Packed 0x10 ∧ s.extent = 0x6000 ∧
      s.translate? 0x12050 = some 0x2050 := by
  intro qs s
  have hn : Nested (aligned 4096) qs := by
    refine ⟨.free (by decide), .free (by decide), ?_, ?_, .free (by decide), trivial⟩
    · exact @Request.Nests.part _ _ ⟨0x10010, 0x3000, 0x10, 1, 0, 0⟩ (by decide) (by decide)
    · exact @Request.Nests.whole _ _ ⟨0x30010, 0x1000, 0x3010, 2, 0, 0⟩ (by decide) rfl rfl
  have hg : ∀ q ∈ qs, q.Granular (grain (pageSize 4096)) 0x10 := by
    simp only [qs, List.forall_mem_cons]
    refine ⟨?_, ?_, ?_, ?_, ?_, List.forall_mem_nil _⟩ <;>
      exact ⟨by decide, by decide, by decide⟩
  obtain ⟨-, hpacked, hkept⟩ := packed_of_granular hg hn
  have hlow : 0x10 % grain (pageSize 4096) = 0x10 := by decide
  rw [hlow] at hpacked
  exact ⟨hn, hpacked, by decide,
    hkept [⟨0x10010, 0x3000, 1, 0⟩] _ rfl 0x12050 0x2050 (by decide)⟩

end Space
end Unslide
