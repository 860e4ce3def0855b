import Unslide.Proofs.Space.Overlay

/-!
# Unslide.Proofs.Space.Granting

When a reservation is granted, told of the calls themselves. Against the blocks that stay, a request
is placed by first fit: it is refused if and only if it fits nowhere, and otherwise it is granted at
the least address at which it fits (`FirstFit`). A request that a larger region encloses is refused
for its cuts, and then nothing happened, or it is granted, and then so was every reservation of a
piece.

* `firstFit_of_reachable`: the place of every request that is placed.
* `reserve_of_encloses`: a request that a larger region encloses leads to a carving.
* `carving_all_or_nothing`: a carving is granted as a whole or refused as a whole.
-/

namespace Unslide
namespace Space

/-- The step places the request beside the blocks, or refuses it for want of room. -/
structure FirstFit (page : Nat) (B : Set Region) (q : Request)
    (step : Step Space (Except Refusal Unit)) : Prop where
  refused : step.answer = .error (.exhausted q.start q.size) ↔ ∀ m, ¬ Fits page B q m
  granted : (∃ m, Fits page B q m) → ∃ m, IsLeast {m | Fits page B q m} m ∧
    step.answer = .ok () ∧ step.state.blocks = insert (q.block m) B ∧
      (step.state.locate? q.start).map Prod.fst = some m
  kept : (∀ m, ¬ Fits page B q m) → step.state.blocks = B

variable {s : Space} {q : Request} {slot : Nat} {r : Region}

/-! ## Requests that are placed -/

/-- A request is placed beside the blocks that it does not meet, unless one of them is in the way or
encloses it. -/
theorem settles_of_not_encloses (h : s.Sound) (hv : q.Valid) {replace : Bool}
    (hmeets : ∀ b ∈ s.blocks, b.Meets q.region → replace = true ∧ ¬ b.Encloses q) :
    s.Obeys (Settles s.page (spared s.blocks q) q) (s.reserve q replace) := by
  obtain ⟨hsound, hpage, hlaw⟩ := reserve_obeys h q replace
  refine ⟨hsound, hpage, ?_⟩
  generalize (s.reserve q replace).answer = answer at hlaw
  generalize (s.reserve q replace).state.blocks = B' at hlaw
  cases hlaw with
  | invalid hv' => exact absurd hv hv'
  | collision _ hreplace hb hbm =>
    rw [(hmeets _ hb hbm).1] at hreplace
    cases hreplace
  | misaligned _ _ hold henc _ =>
    exact absurd henc (hmeets _ hold (meets_of_encloses hv henc)).2
  | carved _ _ hold henc _ _ => exact absurd henc (hmeets _ hold (meets_of_encloses hv henc)).2
  | settled _ _ hsettles => exact hsettles

theorem firstFit_of_settles {B : Set Region} {step : Step Space (Except Refusal Unit)}
    (h : s.Obeys (Settles s.page B q) step) (hv : q.Valid) : FirstFit s.page B q step := by
  obtain ⟨hsound, -, hlaw⟩ := h
  obtain ⟨t, answer, notes⟩ := step
  simp only at hsound hlaw
  generalize hblocks : t.blocks = B' at hlaw
  cases hlaw with
  | @room m hleast =>
    have hin : q.block m ∈ t.blocks := by
      rw [hblocks]
      exact Set.mem_insert _ _
    have hstart : (q.block m).Contains q.start :=
      ⟨Nat.le_refl _, Nat.lt_add_of_pos_right (Nat.pos_of_ne_zero hv.1)⟩
    obtain ⟨handle, hlocate, -⟩ := locate?_of_contains hsound hin hstart
    have hplace : (q.block m).placeOf q.start = m := by
      simp [Region.placeOf, Request.block, Request.region]
    refine ⟨?_, ?_, fun hnone => absurd hleast.1 (hnone m)⟩
    · exact iff_of_false (by simp) fun hnone => hnone m hleast.1
    · intro _
      refine ⟨m, hleast, rfl, hblocks, ?_⟩
      rw [hlocate, hplace, Option.map_some]
  | full hnone =>
    refine ⟨iff_of_true rfl hnone, ?_, fun _ => hblocks⟩
    rintro ⟨m, hm⟩
    exact absurd hm (hnone m)

/-! ## Requests that a larger region encloses -/

theorem reserve_of_encloses (h : s.Sound) (hv : q.Valid) (hr : s.regionAt? slot = some r)
    (henc : r.Encloses q) : s.reserve q true = s.carve slot r q := by
  have htouch := touching_of_covers h hr henc.1 (meets_of_encloses hv henc)
  simp only [reserve, hv, not_true_eq_false, if_false, htouch, covering?_of_encloses hr henc]
  rfl

theorem reserveFree_eq_reserve (s : Space) (q : Request) :
    s.reserveFree q = s.reserve q false := by
  simp only [reserveFree, reserve, if_true]

/-- The calls that reserve intervals which are to meet no live region. -/
def insertions (qs : List Request) : List Call := qs.map fun q => .reserve q false

/-- Reservations in a row that come to a good end are the calls one by one, and each of them was
granted. -/
theorem reserveEach_of_ok {qs : List Request} (h : (s.reserveEach qs).answer = .ok ()) :
    (s.reserveEach qs).state = s.performAll (insertions qs) ∧
      ∀ before c after, qs = before ++ c :: after →
        ((s.performAll (insertions before)).reserve c false).answer = .ok () := by
  induction qs generalizing s with
  | nil =>
    refine ⟨rfl, ?_⟩
    intro before c after hsplit
    simp at hsplit
  | cons q rest ih =>
    simp only [reserveEach, reserveFree_eq_reserve] at h ⊢
    cases hfirst : (s.reserve q false).answer with
    | error e =>
      rw [hfirst] at h
      cases h
    | ok _ =>
      rw [hfirst] at h
      obtain ⟨hstate, hgranted⟩ := ih h
      refine ⟨hstate, ?_⟩
      intro before c after hsplit
      cases before with
      | nil =>
        cases hsplit
        exact hfirst
      | cons p before =>
        cases hsplit
        exact hgranted before c after rfl

/-! ## Reachable spaces -/

/-- **First fit is complete and minimal.** A request that meets no region of a reachable space is
refused if and only if it fits nowhere, and otherwise it is granted at the least address at which it
fits. The same holds beside the regions that are left when others had to make room, and for each
piece of a region that is carved. -/
theorem firstFit_of_reachable (h : s.Reachable) (hv : q.Valid) :
    ((∀ b ∈ s.blocks, ¬ b.Meets q.region) →
      ∀ replace, FirstFit s.page s.blocks q (s.reserve q replace)) ∧
    ((∀ b ∈ s.blocks, ¬ b.Encloses q) →
      FirstFit s.page (spared s.blocks q) q (s.reserve q true)) ∧
    ∀ old ∈ s.blocks, old.Encloses q → CutsOnPages s.page old q →
      (s.reserve q true).answer = .ok () ∧
        PlacesEach s.page (s.blocks \ {old}) (pieces old q) (s.reserve q true).state.blocks := by
  have hs := sound_of_reachable h
  refine ⟨?free, ?evicted, ?carved⟩
  case free =>
    intro hfree replace
    have hsettles : s.Obeys (Settles s.page (spared s.blocks q) q) (s.reserve q replace) :=
      settles_of_not_encloses hs hv fun b hb hmeets => absurd hmeets (hfree b hb)
    rw [spared_of_free hfree] at hsettles
    exact firstFit_of_settles hsettles hv
  case evicted =>
    intro hnot
    exact firstFit_of_settles (settles_of_not_encloses hs hv fun b hb _ => ⟨rfl, hnot b hb⟩) hv
  case carved =>
    rintro _ ⟨slot, r, hr, rfl⟩ henc hcuts
    rw [reserve_of_encloses hs hv hr henc]
    exact (carve_granted hs hv hr henc hcuts).law

/-- A space with a hole of less than a page between two regions: a small request goes into it, a
larger one does so once the region behind the hole has made room, and a region that loses its second
page keeps its first. Beside a region that takes half of the space and starts in the middle of a
page, the other half does not fit. -/
theorem firstFit_fragmented :
    let s := ((((aligned 4096).reserve ⟨0x10010, 0x1000, 1, 0⟩ false).state.reserve
      ⟨0x20000, 0x2000, 2, 0⟩ false).state.reserve ⟨0x30ff0, 0x20, 3, 0⟩ false).state
    let t := ((aligned 4096).reserve ⟨0x8000000000000800, 0x7ffffffffffff7ff, 1, 0⟩ false).state
    s.Reachable ∧ t.Reachable ∧
      IsLeast {m | Fits s.page s.blocks ⟨0x40800, 0x100, 4, 0⟩ m} 0x1800 ∧
      IsLeast {m | Fits s.page (spared s.blocks ⟨0x21800, 0x1000, 5, 0⟩)
        ⟨0x21800, 0x1000, 5, 0⟩ m} 0x1800 ∧
      PlacesEach s.page (s.blocks \ {⟨0x20000, 0x2000, 0x2000, 2, 0, 0⟩})
        [⟨0x20000, 0x1000, 2, 0⟩, ⟨0x21000, 0x1000, 6, 0⟩]
        (s.reserve ⟨0x21000, 0x1000, 6, 0⟩ true).state.blocks ∧
      ∀ m, ¬ Fits t.page t.blocks ⟨0, 0x8000000000000800, 2, 0⟩ m := by
  intro s t
  have hs : s.Reachable := Reachable.reserve ⟨0x30ff0, 0x20, 3, 0⟩ false
    (.reserve ⟨0x20000, 0x2000, 2, 0⟩ false
      (.reserve ⟨0x10010, 0x1000, 1, 0⟩ false (.aligned 4096)))
  have ht : t.Reachable :=
    Reachable.reserve ⟨0x8000000000000800, 0x7ffffffffffff7ff, 1, 0⟩ false (.aligned 4096)
  refine ⟨hs, ht, ?free, ?evicted, ?carved, ?refused⟩
  case free =>
    have hfit := (firstFit_of_reachable hs (q := ⟨0x40800, 0x100, 4, 0⟩) (by decide)).1
      (by decide) false
    obtain ⟨m, hleast, -, -, hlocate⟩ := hfit.granted ⟨0x1800, by decide, by decide, by decide⟩
    have hm : m = 0x1800 := Option.some.inj (hlocate.symm.trans (by decide))
    rwa [hm] at hleast
  case evicted =>
    have hfit := (firstFit_of_reachable hs (q := ⟨0x21800, 0x1000, 5, 0⟩) (by decide)).2.1
      (by decide)
    have hapart : ∀ b ∈ s.blocks, ¬ b.Meets (Request.region ⟨0x21800, 0x1000, 5, 0⟩) →
        0x1800 + 0x1000 ≤ b.place ∨ b.placeEnd ≤ 0x1800 := by decide
    obtain ⟨m, hleast, -, -, hlocate⟩ := hfit.granted
      ⟨0x1800, by decide, fun b hb => hapart b hb.1 hb.2, by decide⟩
    have hm : m = 0x1800 := Option.some.inj (hlocate.symm.trans (by decide))
    rwa [hm] at hleast
  case carved =>
    exact ((firstFit_of_reachable hs (q := ⟨0x21000, 0x1000, 6, 0⟩) (by decide)).2.2
      ⟨0x20000, 0x2000, 0x2000, 2, 0, 0⟩ (by decide) (by decide) (by decide)).2
  case refused =>
    have hfit := (firstFit_of_reachable ht (q := ⟨0, 0x8000000000000800, 2, 0⟩) (by decide)).1
      (by decide) false
    exact hfit.refused.1 (by decide)

/-- **A carving never fails half way.** A request that a larger region encloses is refused because
one of its cuts is not on a page boundary, and the space is left as it was; or it is granted, and so
was each reservation of a piece, one after the other, in the space without the region. -/
theorem carving_all_or_nothing (h : s.Reachable) (hv : q.Valid) (hr : s.regionAt? slot = some r)
    (henc : r.Encloses q) :
    let step := s.reserve q true
    (¬ CutsOnPages s.page r q ∧
      step.answer = .error (.misaligned q.start q.size r.start r.size) ∧ step.state = s) ∨
    (CutsOnPages s.page r q ∧ step.answer = .ok () ∧
      step.state = (s.release slot).performAll (insertions (pieces r q)) ∧
      ∀ before c after, pieces r q = before ++ c :: after →
        (((s.release slot).performAll (insertions before)).reserve c false).answer = .ok ()) := by
  intro step
  have hs := sound_of_reachable h
  have hstep : step = s.carve slot r q := reserve_of_encloses hs hv hr henc
  by_cases hcuts : CutsOnPages s.page r q
  · have hok := (carve_granted hs hv hr henc hcuts).law.1
    rw [← hstep] at hok
    refine .inr ⟨hcuts, hok, ?_⟩
    rw [hstep, carve, if_pos hcuts] at hok ⊢
    exact reserveEach_of_ok hok
  · left
    rw [hstep, carve, if_neg hcuts]
    exact ⟨hcuts, rfl, rfl⟩

/-- The middle page of a region of three pages is taken; half a page of it is not. -/
theorem carving_all_or_nothing_middle :
    let s := ((aligned 4096).reserve ⟨0x10000, 0x3000, 1, 0x7000⟩ false).state
    s.Reachable ∧ (s.reserve ⟨0x11000, 0x1000, 2, 0⟩ true).answer = .ok () ∧
      (s.reserve ⟨0x11000, 0x800, 2, 0⟩ true).state = s := by
  intro s
  have hs : s.Reachable := Reachable.reserve ⟨0x10000, 0x3000, 1, 0x7000⟩ false (.aligned 4096)
  have hr : s.regionAt? 0 = some ⟨0x10000, 0x3000, 0, 1, 0x7000, top - 0x3000⟩ := rfl
  refine ⟨hs, ?_, ?_⟩
  · rcases carving_all_or_nothing hs (q := ⟨0x11000, 0x1000, 2, 0⟩) (by decide) hr (by decide)
      with ⟨hcuts, -⟩ | ⟨-, hok, -⟩
    · exact absurd (by decide) hcuts
    · exact hok
  · rcases carving_all_or_nothing hs (q := ⟨0x11000, 0x800, 2, 0⟩) (by decide) hr (by decide)
      with ⟨-, -, hsame⟩ | ⟨hcuts, -⟩
    · exact hsame
    · exact absurd hcuts (by decide)

end Space
end Unslide
