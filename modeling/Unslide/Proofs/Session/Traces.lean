import Unslide.Proofs.Session.History

/-!
# Unslide.Proofs.Session.Traces

What a look-up without an answer leaves behind. A mapping counts the addresses that were resolved
into it, and an image is marked and remembers the threads. The hit is counted before the synthetic
address is held against the page of the real one: an address that is found in a mapping, but whose
synthetic address lies elsewhere in its page, is counted and then not resolved. Every other look-up
without an answer leaves no trace.

* `shifted_iff`, `not_shifted`: the addresses that are counted and not resolved, and when there are
  none.
* `resolve_of_unshifted`, `resolve_of_moved`: what a look-up without an answer does.
* `unresolved_traceless_iff`: exactly when it leaves no trace.
-/

namespace Unslide
namespace Session

/-- The address lies in a region of the process whose mapping is on record, but the session remaps,
and the synthetic address lies elsewhere in its page. -/
def Shifted (s : Session) (pid addr : Nat) : Prop :=
  s.options.remap = true ∧ ∃ slot r, (s.spaceOf pid).regionAt? slot = some r ∧ r.Contains addr ∧
    (s.mappings.find? r.id).isSome = true ∧ ¬ SameOffset s.checkedPage addr (r.placeOf addr)

/-- All mappings are the same, with what they count, and so are all images, with their marks and
threads, and the list of the mappings that were never met. -/
structure SameHits (s t : Session) : Prop where
  mappings : t.mappings = s.mappings
  images : t.images = s.images
  unsampled : t.unsampled = s.unsampled

variable {s t : Session} {o : Options} {addr pid id place : Nat} {m : Mapping} {thread : Thread}

theorem SameHits.of_eq (hm : t.mappings = s.mappings) (hi : t.images = s.images) :
    s.SameHits t where
  mappings := hm
  images := hi
  unsampled := by simp only [Session.unsampled, hm]

theorem judged_eq_moved {b : Region} (h : s.judged b addr = .moved id m place) :
    s.options.remap = true ∧ (s.mappings.find? b.id).isSome = true ∧
      ¬ SameOffset s.checkedPage addr (b.placeOf addr) := by
  simp only [judged] at h
  cases hm : s.mappings.find? b.id with
  | none =>
    rw [hm] at h
    cases h
  | some m =>
    simp only [hm] at h
    split at h
    · cases h
    · rename_i hkept
      rw [not_or, Bool.not_eq_false] at hkept
      exact ⟨hkept.1, rfl, hkept.2⟩

theorem shifted_iff (h : s.Steady) :
    s.Shifted pid addr ↔ ∃ id m place, s.finding (s.spaceOf pid) addr = .moved id m place := by
  have hs := h.sound_spaceOf pid
  constructor
  · rintro ⟨hremap, slot, r, hr, hc, hrecorded, hmoved⟩
    obtain ⟨m, hm⟩ := Option.isSome_iff_exists.1 hrecorded
    have hc' : r.bare.Contains addr := hc
    have hm' : s.mappings.find? r.bare.id = some m := hm
    have hmoved' : ¬ SameOffset s.checkedPage addr (r.bare.placeOf addr) := hmoved
    refine ⟨r.bare.id, m, r.bare.placeOf addr, ?_⟩
    rw [finding_of_mem hs (Space.mem_blocks_of_regionAt? hr) hc']
    simp only [judged, hm', hremap, hmoved', Bool.true_eq_false, or_self, if_false]
  · rintro ⟨id, m, place, hfinding⟩
    rcases finding_cases hs s addr with ⟨b, hb, hc, hjudged⟩ | hnothing
    · rw [hjudged] at hfinding
      obtain ⟨hremap, hrecorded, hmoved⟩ := judged_eq_moved hfinding
      obtain ⟨slot, r, hr, rfl⟩ := hb
      exact ⟨hremap, slot, r, hr, hc, hrecorded, hmoved⟩
    · rw [hnothing] at hfinding
      cases hfinding

/-- Where the options keep offsets, no synthetic address lies elsewhere in its page. -/
theorem not_shifted (h : s.Steady) (hk : s.options.Keeps) : ¬ s.Shifted pid addr := by
  intro ⟨hremap, slot, r, hr, hc, _, hmoved⟩
  have hremaps : s.options.remap ≠ false := by simp [hremap]
  exact hmoved (sameOffset_placeOf (b := r.bare) h hk hremaps (h.sound_spaceOf pid)
    (h.page_spaceOf pid) (Space.mem_blocks_of_regionAt? hr) hc)

theorem resolve_of_unshifted (h : s.Steady) (hnone : (s.resolve addr thread).answer = none)
    (hunshifted : ¬ s.Shifted thread.pid addr) : s.SameHits (s.resolve addr thread).state := by
  cases hfinding : s.finding (s.spaceOf thread.pid) addr with
  | nothing =>
    simp only [spaceOf] at hfinding
    simp only [resolve, hfinding]
    exact .of_eq rfl rfl
  | unrecorded id =>
    simp only [spaceOf] at hfinding
    simp only [resolve, hfinding]
    exact .of_eq rfl rfl
  | moved id m place => exact absurd ((shifted_iff h).2 ⟨id, m, place, hfinding⟩) hunshifted
  | found id m hit =>
    rw [answer_resolve, ← spaceOf, hfinding] at hnone
    cases hnone

/-- An address that is found to have moved is counted as a hit of its mapping. -/
theorem resolve_of_moved (hfinding : s.finding (s.spaceOf thread.pid) addr = .moved id m place) :
    (s.resolve addr thread).state.mappings =
      s.mappings.insert id { m with samples := m.samples + 1 } := by
  simp only [spaceOf] at hfinding
  simp only [resolve, hfinding]
  rfl

/-- **What an address that is not resolved leaves behind.** Whatever state a session has come to,
and under whatever options: a look-up without an answer leaves no trace of a hit, exactly if the
address is not one whose synthetic address lies elsewhere in its page. There are no such addresses
if no synthetic addresses are made, or if the alignment that they keep is a page size. -/
theorem unresolved_traceless_iff (h : Reachable o s)
    (hnone : (s.resolve addr thread).answer = none) :
    (s.SameHits (s.resolve addr thread).state ↔ ¬ s.Shifted thread.pid addr) ∧
      (o.Keeps → ¬ s.Shifted thread.pid addr) := by
  obtain ⟨hs, rfl⟩ := h.steady
  refine ⟨⟨?_, resolve_of_unshifted hs hnone⟩, fun hk => not_shifted hs hk⟩
  intro hsame hshifted
  obtain ⟨id, m, place, hfinding⟩ := (shifted_iff hs).1 hshifted
  have hm := find?_of_finding (.inr ⟨place, hfinding⟩)
  have hinsert := hsame.mappings.symm.trans (resolve_of_moved hfinding)
  have hcounted := congrArg (Index.find? · id) hinsert
  simp only [hm, Index.find?_insert_self, Option.some.injEq] at hcounted
  have hsamples := congrArg Mapping.samples hcounted
  simp only at hsamples
  omega

/-- Synthetic addresses are made, and they keep no alignment. -/
def unaligned : Options := { Options.default with alignment := 0 }

/-- The only mapping of a process failed, since its synthetic start lies elsewhere in its page. -/
def rejected : Session :=
  ((start unaligned).register ⟨5, 5, 0x400123, 0x1000, 0, "app", false⟩ 1).state

theorem reachable_rejected : Reachable unaligned rejected := .register _ _ .start

/-- The region of the mapping that failed is there, but there is no mapping to count the hit. -/
theorem unresolved_traceless_rejected :
    Reachable unaligned rejected ∧ (rejected.resolve 0x400200 ⟨5, 5⟩).answer = none ∧
      (rejected.spaceOf 5).attribution 0x400200 = some (1, 0xdd) ∧
      rejected.SameHits (rejected.resolve 0x400200 ⟨5, 5⟩).state := by
  have hnone : (rejected.resolve 0x400200 ⟨5, 5⟩).answer = none := by decide
  refine ⟨reachable_rejected, hnone, by decide, ?_⟩
  refine (unresolved_traceless_iff reachable_rejected hnone).1.2 ?_
  intro ⟨_, slot, r, _, _, hrecorded, _⟩
  have hempty : rejected.mappings = .empty := rfl
  rw [hempty] at hrecorded
  cases hrecorded

/-- Five files are mapped into a process. The fourth mapping replaces the first one, and leaves a
hole in front. The fifth replaces the first half page of the third: it fits into the hole, and the
rest of the third does not, and is placed at the start of a page. -/
def movedRest : Session :=
  (start unaligned).performAll
    [.register ⟨7, 7, 0x10000, 0x1000, 0, "a.so", false⟩ 1,
      .register ⟨7, 7, 0x20000, 0x1000, 0, "b.so", false⟩ 2,
      .register ⟨7, 7, 0x30000, 0x3000, 0, "c.so", false⟩ 3,
      .register ⟨7, 7, 0x10000, 0x2000, 0, "d.so", false⟩ 4,
      .register ⟨7, 7, 0x30000, 0x800, 0, "e.so", false⟩ 5]

theorem reachable_movedRest : Reachable unaligned movedRest := reachable_performAll .start _

/-- All five mappings are on record. An address in the rest of the third is not resolved; it is
counted all the same, and the mapping is no longer listed as never met. -/
theorem unresolved_address_counted :
    let t := (movedRest.resolve 0x30900 ⟨7, 7⟩).state
    Reachable unaligned movedRest ∧ (movedRest.resolve 0x30900 ⟨7, 7⟩).answer = none ∧
      movedRest.mappings.find? 3 = some ⟨7, 2, 0x30000, 0x3000, 0, 0⟩ ∧
      t.mappings.find? 3 = some ⟨7, 2, 0x30000, 0x3000, 0, 1⟩ ∧
      movedRest.images.get? 2 = some ⟨"c.so", false, false, []⟩ ∧
      t.images.get? 2 = some ⟨"c.so", false, true, [⟨7, 7⟩]⟩ ∧
      movedRest.unsampled = [1, 2, 3, 4, 5] ∧ t.unsampled = [1, 2, 4, 5] ∧
      ¬ movedRest.SameHits t := by
  intro t
  have hbefore : movedRest.unsampled = [1, 2, 3, 4, 5] := by decide
  have hafter : t.unsampled = [1, 2, 4, 5] := by decide
  refine ⟨reachable_movedRest, by decide, by decide, by decide, by decide, by decide, hbefore,
    hafter, ?_⟩
  intro hsame
  have hlisted := hsame.unsampled
  rw [hbefore, hafter] at hlisted
  exact absurd hlisted (by decide)

end Session
end Unslide
