import Unslide.Proofs.Space.Granting

/-!
# Unslide.Proofs.Space.Refusing

For what a reservation is refused, and what a refusal leaves behind. There are four reasons, and
which of them applies is told from the request and the live regions alone (`Refused`). Three of them
are found before anything is changed. The fourth, that there is no room, can be found after regions
have made room for nothing: then those are gone, and all others are as they were (`Emptied`).

* `reserve_of_invalid`, `reserve_of_blocked`, `reserve_of_free`, `reserve_of_evicting`,
  `reserve_of_misaligned`: what a reservation comes to.
* `answer_eq_error_iff`: the reason for which a request is refused.
* `refusals_classified`: the reason, and the space that is left.
-/

namespace Unslide
namespace Space

/-- A live region is in the way of the request. -/
def Blocked (s : Space) (q : Request) : Prop := ∃ r ∈ s.live, r.Meets q.region

/-- The reason for which a request is refused. -/
inductive Refused (s : Space) (q : Request) (replace : Bool) : Refusal → Prop where
  | invalid : q.size = 0 ∨ top < q.start + q.size →
      s.Refused q replace (.invalid q.start q.size)
  | collision : q.Valid → replace = false → s.Blocked q →
      s.Refused q replace (.collision q.start q.size)
  | misaligned {r : Region} : q.Valid → replace = true → r ∈ s.live → r.Encloses q →
      s.page ≠ 0 →
      (q.start - r.start) % s.page ≠ 0 ∨ (q.start - r.start + q.size) % s.page ≠ 0 →
      s.Refused q replace (.misaligned q.start q.size r.start r.size)
  | exhausted : q.Valid → (s.Blocked q → replace = true) → (∀ r ∈ s.live, ¬ r.Encloses q) →
      (∀ m, ¬ Fits s.page (spared s.blocks q) q m) →
      s.Refused q replace (.exhausted q.start q.size)

/-- `t` is `s` without the regions that were in the way of the request. -/
structure Emptied (s : Space) (q : Request) (t : Space) : Prop where
  /-- The others are in their slots, at their synthetic addresses, and there is nothing else. -/
  left : ∀ slot b, t.blockAt? slot = some b ↔ s.blockAt? slot = some b ∧ ¬ b.Meets q.region
  page : t.page = s.page
  reachable : t.Reachable
  sound : t.Sound
  /-- It takes reservations as every other space does. -/
  usable : ∀ c replace, t.Obeys (Reserves t.page t.blocks c replace) (t.reserve c replace)

variable {s : Space} {q : Request} {replace : Bool} {slot : Nat} {r : Region} {e : Refusal}

theorem not_valid_iff : ¬ q.Valid ↔ q.size = 0 ∨ top < q.start + q.size := by
  simp only [Request.Valid, Request.stop]
  omega

theorem blocked_iff_blocks : s.Blocked q ↔ ∃ b ∈ s.blocks, b.Meets q.region := by
  simp only [Blocked, mem_blocks_iff_live]
  constructor
  · intro h
    obtain ⟨r, hr, hmeets⟩ := h
    exact ⟨r.bare, ⟨r, hr, rfl⟩, hmeets⟩
  · intro h
    obtain ⟨b, ⟨r, hr, rfl⟩, hmeets⟩ := h
    exact ⟨r, hr, hmeets⟩

theorem touching_eq_nil_iff (h : s.Sound) : s.touching q.region = [] ↔ ¬ s.Blocked q := by
  constructor
  · intro hnil hblocked
    obtain ⟨b, hb, hmeets⟩ := blocked_iff_blocks.1 hblocked
    exact free_of_touching_nil h hnil b hb hmeets
  · intro hfree
    exact touching_nil_of_free h fun b hb hmeets => hfree (blocked_iff_blocks.2 ⟨b, hb, hmeets⟩)

/-! ## What a reservation comes to -/

theorem reserve_of_invalid (hv : ¬ q.Valid) (replace : Bool) :
    s.reserve q replace = ⟨s, .error (.invalid q.start q.size), []⟩ := by
  simp only [reserve, hv, not_false_eq_true, if_true]

theorem reserve_of_free (h : s.Sound) (hv : q.Valid) (hfree : ¬ s.Blocked q) (replace : Bool) :
    s.reserve q replace = s.settle q.region := by
  simp only [reserve, hv, not_true_eq_false, if_false, (touching_eq_nil_iff h).2 hfree]

theorem reserve_of_blocked (h : s.Sound) (hv : q.Valid) (hblocked : s.Blocked q) :
    s.reserve q false = ⟨s, .error (.collision q.start q.size), []⟩ := by
  have hne : s.touching q.region ≠ [] := fun hnil => (touching_eq_nil_iff h).1 hnil hblocked
  obtain ⟨i, more, hslots⟩ := List.exists_cons_of_ne_nil hne
  simp only [reserve, hv, not_true_eq_false, if_false, hslots, if_true]

theorem covering?_of_not_encloses (hnot : ∀ r ∈ s.live, ¬ r.Encloses q) (slots : List Nat) :
    s.covering? slots q = none := by
  cases hcov : s.covering? slots q with
  | none => rfl
  | some found =>
    obtain ⟨i, r⟩ := found
    obtain ⟨-, hr, henc⟩ := covering?_eq_some hcov
    exact absurd henc (hnot r ⟨i, hr⟩)

theorem reserve_of_evicting (h : s.Sound) (hv : q.Valid) (hblocked : s.Blocked q)
    (hnot : ∀ r ∈ s.live, ¬ r.Encloses q) :
    s.reserve q true = (s.releaseAll (s.touching q.region)).settle q.region := by
  have hne : s.touching q.region ≠ [] := fun hnil => (touching_eq_nil_iff h).1 hnil hblocked
  obtain ⟨i, more, hslots⟩ := List.exists_cons_of_ne_nil hne
  simp only [reserve, hv, not_true_eq_false, if_false, hslots, Bool.true_eq_false,
    covering?_of_not_encloses hnot]

theorem reserve_of_misaligned (h : s.Sound) (hv : q.Valid) (hr : r ∈ s.live) (henc : r.Encloses q)
    (hpage : s.page ≠ 0)
    (hcuts : (q.start - r.start) % s.page ≠ 0 ∨ (q.start - r.start + q.size) % s.page ≠ 0) :
    s.reserve q true = ⟨s, .error (.misaligned q.start q.size r.start r.size), []⟩ := by
  obtain ⟨i, hi⟩ := hr
  have hoff : ¬ CutsOnPages s.page r q := by
    simp only [CutsOnPages, not_or, not_and_or]
    exact ⟨hpage, hcuts⟩
  rw [reserve_of_encloses h hv hi henc, carve, if_neg hoff]

/-! ## The reason of a refusal -/

theorem refused_of_error (h : s.Sound) (he : (s.reserve q replace).answer = .error e) :
    s.Refused q replace e := by
  have hlaw := (reserve_obeys h q replace).law
  rw [he] at hlaw
  generalize (s.reserve q replace).state.blocks = B at hlaw
  cases hlaw with
  | invalid hv => exact .invalid (not_valid_iff.1 hv)
  | collision hv hreplace hb hmeets =>
    exact .collision hv hreplace (blocked_iff_blocks.2 ⟨_, hb, hmeets⟩)
  | misaligned hv hreplace hold henc hcuts =>
    obtain ⟨r, hr, rfl⟩ := mem_blocks_iff_live.1 hold
    simp only [CutsOnPages, not_or, not_and_or] at hcuts
    have hencr : r.Encloses q := henc
    exact .misaligned (r := r) hv hreplace hr hencr hcuts.1 hcuts.2
  | settled hv hmeets hsettles =>
    cases hsettles with
    | full hnone =>
      refine .exhausted hv ?_ ?_ hnone
      · intro hblocked
        obtain ⟨b, hb, hbm⟩ := blocked_iff_blocks.1 hblocked
        exact (hmeets b hb hbm).1
      · intro r hr henc
        have hencb : r.bare.Encloses q := henc
        have hin : r.bare ∈ s.blocks := mem_blocks_iff_live.2 ⟨r, hr, rfl⟩
        exact (hmeets _ hin (meets_of_encloses hv hencb)).2 hencb

theorem error_of_refused (h : s.Sound) (hrefused : s.Refused q replace e) :
    (s.reserve q replace).answer = .error e := by
  cases hrefused with
  | invalid hv => rw [reserve_of_invalid (not_valid_iff.2 hv)]
  | collision hv hreplace hblocked =>
    subst hreplace
    rw [reserve_of_blocked h hv hblocked]
  | misaligned hv hreplace hr henc hpage hcuts =>
    subst hreplace
    rw [reserve_of_misaligned h hv hr henc hpage hcuts]
  | exhausted hv hreplace hnot hnone =>
    have hmeets : ∀ b ∈ s.blocks, b.Meets q.region → replace = true ∧ ¬ b.Encloses q := by
      intro b hb hbm
      refine ⟨hreplace (blocked_iff_blocks.2 ⟨b, hb, hbm⟩), ?_⟩
      obtain ⟨r, hr, rfl⟩ := mem_blocks_iff_live.1 hb
      exact hnot r hr
    exact (firstFit_of_settles (settles_of_not_encloses h hv hmeets) hv).refused.2 hnone

theorem answer_eq_error_iff (h : s.Sound) :
    (s.reserve q replace).answer = .error e ↔ s.Refused q replace e :=
  ⟨refused_of_error h, error_of_refused h⟩

/-! ## What is left -/

theorem state_of_refused (h : s.Sound) (he : (s.reserve q replace).answer = .error e)
    (hkept : e ≠ .exhausted q.start q.size ∨ ¬ s.Blocked q) : (s.reserve q replace).state = s := by
  cases refused_of_error h he with
  | invalid hv => rw [reserve_of_invalid (not_valid_iff.2 hv)]
  | collision hv hreplace hblocked =>
    subst hreplace
    rw [reserve_of_blocked h hv hblocked]
  | misaligned hv hreplace hr henc hpage hcuts =>
    subst hreplace
    rw [reserve_of_misaligned h hv hr henc hpage hcuts]
  | exhausted hv _ _ _ =>
    have hfree : ¬ s.Blocked q := hkept.resolve_left fun hne => hne rfl
    rw [reserve_of_free h hv hfree] at he ⊢
    exact state_settle_of_error he

theorem state_of_exhausted (h : s.Sound)
    (he : (s.reserve q replace).answer = .error (.exhausted q.start q.size))
    (hblocked : s.Blocked q) : replace = true ∧ (∀ r ∈ s.live, ¬ r.Encloses q) ∧
      (s.reserve q replace).state = s.releaseAll (s.touching q.region) := by
  cases refused_of_error h he with
  | exhausted hv hreplace hnot _ =>
    have htrue := hreplace hblocked
    subst htrue
    rw [reserve_of_evicting h hv hblocked hnot] at he ⊢
    exact ⟨rfl, hnot, state_settle_of_error he⟩

/-- **Every refusal has its reason, and leaves what it says.** In every space that a process can
have, a request is refused for the reason that its interval and the live regions give, and for no
other. The space is left as it was, unless there is no room for a request that regions were in the
way of: then the request was to replace them, none of them encloses it, and exactly they are gone. -/
theorem refusals_classified (h : s.Reachable) (q : Request) (replace : Bool) :
    (∀ e, (s.reserve q replace).answer = .error e ↔ s.Refused q replace e) ∧
    (∀ e, (s.reserve q replace).answer = .error e →
      e ≠ .exhausted q.start q.size ∨ ¬ s.Blocked q → (s.reserve q replace).state = s) ∧
    ((s.reserve q replace).answer = .error (.exhausted q.start q.size) → s.Blocked q →
      replace = true ∧ (∀ r ∈ s.live, ¬ r.Encloses q) ∧
        s.Emptied q (s.reserve q replace).state) := by
  have hs := sound_of_reachable h
  refine ⟨fun e => answer_eq_error_iff hs, fun e he hkept => state_of_refused hs he hkept, ?_⟩
  intro he hblocked
  obtain ⟨hreplace, hnot, hstate⟩ := state_of_exhausted hs he hblocked
  obtain ⟨hsound, hpage, -⟩ := reserve_obeys hs q replace
  refine ⟨hreplace, hnot, ⟨?left, hpage, .reserve q replace h, hsound, ?usable⟩⟩
  case left =>
    intro slot b
    rw [hstate]
    exact blockAt?_releaseAll_touching hs slot b
  case usable =>
    intro c again
    exact reserve_obeys hsound c again

/-- Half of the space is taken by a region behind a small one. A request for the other half and a
part of the small region fits neither in front of the large region, where the small one was, nor
behind it. The small region is gone, and the large one stays. -/
theorem refusals_classified_emptied :
    let s := (((aligned 0).reserve ⟨0, 0x1000, 1, 0⟩ false).state.reserve
      ⟨0x8000000000000000, 0x7fffffffffffffff, 2, 0⟩ false).state
    let q : Request := ⟨0x800, 0x7ffffffffffff800, 3, 0⟩
    s.Reachable ∧ s.Refused q true (.exhausted q.start q.size) ∧ s.Blocked q ∧
      s.Emptied q (s.reserve q true).state ∧
      (s.reserve q true).state.regions = [⟨0x8000000000000000, 0x7fffffffffffffff, 0x1000, 2, 0,
        0x7ffffffffffff000⟩] := by
  intro s q
  have hs : s.Reachable := Reachable.reserve ⟨0x8000000000000000, 0x7fffffffffffffff, 2, 0⟩ false
    (.reserve ⟨0, 0x1000, 1, 0⟩ false (.aligned 0))
  have hblocked : s.Blocked q := ⟨⟨0, 0x1000, 0, 1, 0, 0⟩, ⟨0, by decide⟩, by decide⟩
  have hfull : (s.reserve q true).answer = .error (.exhausted q.start q.size) := by decide
  obtain ⟨hreason, -, hleft⟩ := refusals_classified hs q true
  exact ⟨hs, (hreason _).1 hfull, hblocked, (hleft hfull hblocked).2.2, by decide⟩

end Space
end Unslide
