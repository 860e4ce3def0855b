import Unslide.Proofs.Space.Soundness

/-!
# Unslide.Proofs.Space.Lookup

A look-up sees the blocks of a space and nothing else: neither the slots nor the order in which the
regions came. An address of a block leads to that block, all others lead nowhere.

* `locate?_of_contains`: the look-up of an address of a block.
* `locate?_of_free`: the look-up of an address that no block holds.
* `locate?_eq_some_iff`: every answer of a look-up.
-/

namespace Unslide
namespace Space

variable {s : Space} {slot addr : Nat} {r b : Region}

/-- The region that holds an address has the greatest start that is not above it. -/
theorem upTo?_of_contains (h : s.Sound) (hr : s.regionAt? slot = some r) (hc : r.Contains addr) :
    s.byStart.upTo? addr = some (r.start, slot) := by
  refine Index.upTo?_eq_some_iff.2 ⟨⟨(h.coherent.byStart _ _).2 ⟨r, hr, rfl⟩, hc.1⟩, ?_⟩
  rintro ⟨k, i⟩ hin hle
  obtain ⟨c, hcr, rfl⟩ := (h.coherent.byStart k i).1 hin
  by_contra hgt
  -- a region that starts between `r` and the address would share its start with `r`
  have hpos := (h.valid _ (mem_blocks_of_regionAt? hcr)).1
  have hmeets : c.bare.Meets r.bare := by
    simp only [Region.Contains, Region.Meets, Region.stop, Region.bare_start,
      Region.bare_size] at hc hpos ⊢
    simp only at hle hgt
    omega
  have heq := congrArg Region.start
    (h.apart _ (mem_blocks_of_regionAt? hcr) _ (mem_blocks_of_regionAt? hr) hmeets)
  simp only [Region.bare_start] at heq hgt
  omega

theorem locate?_of_regionAt? (h : s.Sound) (hr : s.regionAt? slot = some r)
    (hc : r.Contains addr) : s.locate? addr = some (r.placeOf addr, ⟨slot, s.age⟩) := by
  simp only [locate?, upTo?_of_contains h hr hc, hr, hc, if_true]

/-- An address of a block leads to its place in the block, and on to its number and offset. -/
theorem locate?_of_contains (h : s.Sound) (hb : b ∈ s.blocks) (hc : b.Contains addr) :
    ∃ handle, s.locate? addr = some (b.placeOf addr, handle) ∧
      s.attribute? addr handle = some (b.id, b.fileOffset addr) := by
  obtain ⟨slot, r, hr, rfl⟩ := hb
  have hcr : r.Contains addr := hc
  have hlocate := locate?_of_regionAt? h hr hcr
  refine ⟨⟨slot, s.age⟩, hlocate, ?_⟩
  simp only [attribute?, ne_eq, not_true_eq_false, if_false, hr, hcr, if_true]
  rfl

theorem locate?_of_free (h : s.Sound) (hfree : ∀ b ∈ s.blocks, ¬ b.Contains addr) :
    s.locate? addr = none := by
  simp only [locate?]
  split
  · rfl
  · rename_i k slot hupTo
    obtain ⟨⟨hin, -⟩, -⟩ := Index.upTo?_eq_some_iff.1 hupTo
    obtain ⟨r, hr, -⟩ := (h.coherent.byStart k slot).1 hin
    have hout : ¬ r.Contains addr := hfree r.bare (mem_blocks_of_regionAt? hr)
    simp only [hr, hout, if_false]

/-- A look-up answers the place of the address in the one region that contains it, and a handle on
that region. -/
theorem locate?_eq_some_iff (h : s.Sound) {place : Nat} {handle : Handle} :
    s.locate? addr = some (place, handle) ↔ handle.age = s.age ∧
      ∃ r, s.regionAt? handle.slot = some r ∧ r.Contains addr ∧ r.placeOf addr = place := by
  constructor
  · intro hl
    by_cases hfree : ∀ b ∈ s.blocks, ¬ b.Contains addr
    · rw [locate?_of_free h hfree] at hl
      cases hl
    · simp only [not_forall, Classical.not_not] at hfree
      obtain ⟨b, ⟨slot, r, hr, rfl⟩, hc⟩ := hfree
      rw [locate?_of_regionAt? h hr hc] at hl
      cases hl
      exact ⟨rfl, r, hr, hc, rfl⟩
  · intro ⟨hage, r, hr, hc, hplace⟩
    rw [locate?_of_regionAt? h hr hc, hplace, ← hage]

/-- The number and file offset that a look-up of an address comes to. -/
def attribution (s : Space) (addr : Nat) : Option (Nat × Nat) :=
  match s.locate? addr with
  | none => none
  | some (_, handle) => s.attribute? addr handle

theorem attribution_of_contains (h : s.Sound) (hb : b ∈ s.blocks) (hc : b.Contains addr) :
    s.attribution addr = some (b.id, b.fileOffset addr) := by
  obtain ⟨handle, hlocate, hattribute⟩ := locate?_of_contains h hb hc
  simp only [attribution, hlocate, hattribute]

theorem attribution_of_free (h : s.Sound) (hfree : ∀ b ∈ s.blocks, ¬ b.Contains addr) :
    s.attribution addr = none := by
  simp only [attribution, locate?_of_free h hfree]

end Space
end Unslide
