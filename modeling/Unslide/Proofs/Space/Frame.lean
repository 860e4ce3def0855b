import Unslide.Proofs.Space.Granting
import Unslide.Proofs.Space.Translation

/-!
# Unslide.Proofs.Space.Frame

What a reservation leaves alone. Regions that make room leave their slots to others, spare bytes are
handed on, and new regions go wherever they fit; but a region that shares no address with what is
asked for stays in its slot, and its synthetic address with it. All that can change about it is the
number of spare bytes behind it. So whoever has seen a synthetic address of such a region can rely
on it.

* `blockAt?_reserve`: one reservation, granted or refused.
* `mem_blocks_reserve`: the same, told without slots.
* `untouched_stays`: any number of calls, and what look-ups find behind them.
-/

namespace Unslide

/-- The request asks for an address of the region. -/
def Request.Touches (q : Request) (r : Region) : Prop :=
  ∃ addr, q.region.Contains addr ∧ r.Contains addr

theorem Request.touches_iff {q : Request} {r : Region} :
    q.Touches r ↔ max q.start r.start < min q.stop r.stop := by
  simp only [Touches, Region.contains_iff, Request.region, Request.stop, Region.stop]
  constructor
  · intro h
    obtain ⟨addr, hq, hr⟩ := h
    omega
  · intro h
    exact ⟨max q.start r.start, by omega, by omega⟩

instance (q : Request) (r : Region) : Decidable (q.Touches r) :=
  decidable_of_iff _ Request.touches_iff.symm

namespace Space

variable {s t : Space} {q : Request} {slot : Nat} {b r : Region}

/-! ## Slots -/

/-- A new region never takes the slot of another one. -/
theorem blockAt?_store (h : s.Coherent) (hb : s.blockAt? slot = some b) (r : Region) :
    (s.store r).blockAt? slot = some b := by
  have hne : slot ≠ s.nextSlot := by
    intro heq
    simp [heq, blockAt?, h.regionAt?_nextSlot] at hb
  simpa [blockAt?, h.regionAt?_store, hne] using hb

theorem blockAt?_adjust (s : Space) (i : Nat) {f : Region → Region}
    (hf : ∀ p, (f p).bare = p.bare) (slot : Nat) :
    (s.adjust i f).blockAt? slot = s.blockAt? slot := by
  simp only [blockAt?, regionAt?_adjust]
  split
  · rename_i heq
    subst heq
    cases s.regionAt? slot with
    | none => rfl
    | some p => simp [hf]
  · rfl

theorem blockAt?_settle (h : s.Coherent) (hb : s.blockAt? slot = some b) (r : Region) :
    (s.settle r).state.blockAt? slot = some b := by
  simp only [settle]
  split
  · exact hb
  · split
    · exact blockAt?_store h hb _
    · split
      · exact blockAt?_store h hb _
      · split
        · exact hb
        · rename_i gap _
          let cut : Region → Region := fun p => { p with spare := gap.place - gap.floor }
          have hopened : (s.adjust gap.slot cut).Coherent :=
            coherent_adjust h (fun _ => rfl) (fun _ => rfl)
          have hcut : (s.adjust gap.slot cut).blockAt? slot = some b := by
            rw [blockAt?_adjust s gap.slot (f := cut) fun _ => rfl]
            exact hb
          exact blockAt?_store hopened hcut _

theorem blockAt?_reserveFree (h : s.Coherent) (hb : s.blockAt? slot = some b) (q : Request) :
    (s.reserveFree q).state.blockAt? slot = some b := by
  simp only [reserveFree]
  split
  · exact hb
  · split
    · exact blockAt?_settle h hb _
    · exact hb

theorem sound_reserveFree (h : s.Sound) (q : Request) : (s.reserveFree q).state.Sound := by
  rw [reserveFree_eq_reserve]
  exact (reserve_obeys h q false).sound

theorem blockAt?_reserveEach (qs : List Request) :
    ∀ {s : Space}, s.Sound → s.blockAt? slot = some b →
      (s.reserveEach qs).state.blockAt? slot = some b := by
  induction qs with
  | nil =>
    intro s _ hb
    exact hb
  | cons q rest ih =>
    intro s h hb
    have hfirst := blockAt?_reserveFree h.coherent hb q
    simp only [reserveEach]
    split
    · exact hfirst
    · exact ih (sound_reserveFree h q) hfirst

theorem blockAt?_carve (h : s.Sound) (hb : s.blockAt? slot = some b) {i : Nat} (hne : slot ≠ i)
    (old : Region) (q : Request) : (s.carve i old q).state.blockAt? slot = some b := by
  simp only [carve]
  split
  · rw [Step.after_state]
    refine blockAt?_reserveEach _ (sound_release h i) ?_
    rw [blockAt?_release_of_ne s hne]
    exact hb
  · exact hb

/-- A block stays in its slot when an interval is reserved that it does not meet, whatever comes of
the reservation. -/
theorem blockAt?_reserve (h : s.Sound) (hb : s.blockAt? slot = some b)
    (hfree : q.Valid → ¬ b.Meets q.region) (replace : Bool) :
    (s.reserve q replace).state.blockAt? slot = some b := by
  simp only [reserve]
  split
  · exact hb
  · rename_i hv
    rw [Classical.not_not] at hv
    have hout : slot ∉ s.touching q.region := fun hin =>
      hfree hv ((mem_touching_iff_meets h hb).1 hin)
    split
    · exact blockAt?_settle h.coherent hb _
    · rename_i i more hslots
      rw [hslots] at hout
      split
      · exact hb
      · split
        · rename_i j old hcov
          obtain ⟨hone, -, -⟩ := covering?_eq_some hcov
          rw [hone, List.mem_singleton] at hout
          exact blockAt?_carve h hb hout _ _
        · refine blockAt?_settle (sound_releaseAll h _).coherent ?_ _
          rw [blockAt?_releaseAll, if_neg hout]
          exact hb

/-! ## Regions that no request touches -/

/-- A block that shares no address with a valid request does not meet it. -/
theorem not_meets_of_not_touches (hpos : 0 < b.size) (hq : ¬ q.Touches b) :
    q.Valid → ¬ b.Meets q.region := by
  intro hv hmeets
  have hqpos := Nat.pos_of_ne_zero hv.1
  rw [Request.touches_iff] at hq
  simp only [Region.Meets, Region.stop, Request.region, Request.stop] at hmeets hq
  omega

/-- A region stays where it is when addresses beside it are reserved, whether they are granted or
not. -/
theorem mem_blocks_reserve (h : s.Sound) (hb : b ∈ s.blocks) (hq : ¬ q.Touches b)
    (replace : Bool) : b ∈ (s.reserve q replace).state.blocks := by
  have hfree := not_meets_of_not_touches (h.valid b hb).1 hq
  obtain ⟨slot, hslot⟩ := mem_blocks_iff_blockAt?.1 hb
  exact mem_blocks_iff_blockAt?.2 ⟨slot, blockAt?_reserve h hslot hfree replace⟩

/-- The region `r` of `s` is still there in `t`, and so is all that a look-up tells about it. -/
structure Kept (s t : Space) (slot : Nat) (r : Region) : Prop where
  /-- Only the spare bytes behind it may be others. -/
  live : ∃ spare, t.regionAt? slot = some { r with spare := spare }
  place : ∀ addr, r.Contains addr → s.translate? addr = some (r.place + (addr - r.start)) ∧
    t.translate? addr = some (r.place + (addr - r.start))
  origin : ∀ addr, r.Contains addr →
    s.attribution addr = some (r.id, wrap (addr - r.start + r.base)) ∧
      t.attribution addr = some (r.id, wrap (addr - r.start + r.base))

theorem kept_of_blockAt? (h : s.Sound) (ht : t.Sound) (hr : s.regionAt? slot = some r)
    (hb : t.blockAt? slot = some r.bare) : s.Kept t slot r := by
  obtain ⟨p, hp, hbare⟩ := Option.map_eq_some_iff.1 hb
  have hpr : p = { r with spare := p.spare } := by
    obtain ⟨_, _, _, _, _, _⟩ := p
    simp only [Region.bare, Region.mk.injEq] at hbare
    obtain ⟨rfl, rfl, rfl, rfl, rfl, -⟩ := hbare
    rfl
  rw [hpr] at hp
  have hin : r.bare ∈ s.blocks := mem_blocks_of_regionAt? hr
  have htin : r.bare ∈ t.blocks := mem_blocks_iff_blockAt?.2 ⟨slot, hb⟩
  have hlive : ({ r with spare := p.spare } : Region) ∈ t.live := ⟨slot, hp⟩
  refine ⟨⟨p.spare, hp⟩, ?place, ?origin⟩
  case place =>
    intro addr hc
    have hcp : ({ r with spare := p.spare } : Region).Contains addr := hc
    have hafter := translate?_of_contains ht hlive hcp
    exact ⟨translate?_of_contains h ⟨slot, hr⟩ hc, hafter⟩
  case origin =>
    intro addr hc
    have hcb : r.bare.Contains addr := hc
    have hbefore := attribution_of_contains h hin hcb
    have hafter := attribution_of_contains ht htin hcb
    exact ⟨hbefore, hafter⟩

/-- No reservation among the calls asks for an address of the region. -/
def Spares (r : Region) (calls : List Call) : Prop :=
  ∀ q replace, Call.reserve q replace ∈ calls → ¬ q.Touches r

theorem blockAt?_perform (h : s.Sound) (hb : s.blockAt? slot = some b) {c : Call}
    (hc : Spares b [c]) : (s.perform c).blockAt? slot = some b := by
  cases c with
  | reserve q replace =>
    have hpos := (h.valid b (mem_blocks_iff_blockAt?.2 ⟨slot, hb⟩)).1
    have hq := hc q replace List.mem_cons_self
    exact blockAt?_reserve h hb (not_meets_of_not_touches hpos hq) replace
  | setPage alignment =>
    simp only [perform, setPage]
    split <;> exact hb

theorem blockAt?_performAll (h : s.Reachable) (hb : s.blockAt? slot = some b) {calls : List Call}
    (hcalls : Spares b calls) : (s.performAll calls).blockAt? slot = some b := by
  induction calls generalizing s with
  | nil => exact hb
  | cons c rest ih =>
    have hfirst : Spares b [c] := by
      intro q replace hin
      rw [List.mem_singleton] at hin
      exact hcalls q replace (by simp [hin])
    have hrest : Spares b rest := fun q replace hin => hcalls q replace (List.mem_cons_of_mem _ hin)
    exact ih (reachable_perform h c) (blockAt?_perform (sound_of_reachable h) hb hfirst) hrest

/-- **What is not touched stays.** A region of a reachable space that shares no address with a
request is in its slot and at its synthetic address behind the reservation, whatever came of it, and
its addresses lead where they led before. The same holds of any number of calls. -/
theorem untouched_stays (h : s.Reachable) (hr : s.regionAt? slot = some r) :
    (∀ q replace, ¬ q.Touches r → s.Kept (s.reserve q replace).state slot r) ∧
      ∀ calls, Spares r calls → s.Kept (s.performAll calls) slot r := by
  have hs := sound_of_reachable h
  have hb : s.blockAt? slot = some r.bare := by simp [blockAt?, hr]
  constructor
  · intro q replace hq
    have hpos : 0 < r.bare.size := (hs.valid _ (mem_blocks_of_regionAt? hr)).1
    have hq' : ¬ q.Touches r.bare := hq
    exact kept_of_blockAt? hs (reserve_obeys hs q replace).sound hr
      (blockAt?_reserve hs hb (not_meets_of_not_touches hpos hq') replace)
  · intro calls hcalls
    have hreach := (spans_performAll h calls).1
    have hcalls' : Spares r.bare calls := hcalls
    exact kept_of_blockAt? hs (sound_of_reachable hreach) hr (blockAt?_performAll h hb hcalls')

/-- Two regions make room for a larger one, and that one for another. The region in front of them
stays, with other bytes behind it. -/
theorem untouched_stays_beside_eviction :
    let s := ((((aligned 4096).reserve ⟨0x10000, 0x1000, 1, 0x7000⟩ false).state.reserve
      ⟨0x20000, 0x2000, 2, 0⟩ false).state.reserve ⟨0x30000, 0x1000, 3, 0⟩ false).state
    let r : Region := ⟨0x10000, 0x1000, 0, 1, 0x7000, 0⟩
    let q : Request := ⟨0x21800, 0x10000, 4, 0⟩
    let calls := [Call.reserve q true, .setPage 1, .reserve ⟨0x11000, 0x20000, 5, 0⟩ true]
    s.Reachable ∧ s.regionAt? 0 = some r ∧ ¬ q.Touches r ∧ s.Kept (s.reserve q true).state 0 r ∧
      (s.reserve q true).state.regionAt? 0 = some { r with spare := 0x800 } ∧
      Spares r calls ∧ s.Kept (s.performAll calls) 0 r := by
  intro s r q calls
  have hs : s.Reachable := Reachable.reserve ⟨0x30000, 0x1000, 3, 0⟩ false
    (.reserve ⟨0x20000, 0x2000, 2, 0⟩ false (.reserve ⟨0x10000, 0x1000, 1, 0x7000⟩ false
      (.aligned 4096)))
  have hr : s.regionAt? 0 = some r := by decide
  have hq : ¬ q.Touches r := by decide
  have hcalls : Spares r calls := by
    intro p replace hp
    simp only [calls, List.mem_cons, Call.reserve.injEq, reduceCtorEq, List.not_mem_nil, or_false,
      false_or] at hp
    cases hp with
    | inl heq =>
      rw [heq.1]
      exact hq
    | inr heq =>
      rw [heq.1]
      decide
  exact ⟨hs, hr, hq, (untouched_stays hs hr).1 q true hq, by decide, hcalls,
    (untouched_stays hs hr).2 calls hcalls⟩

end Space
end Unslide
