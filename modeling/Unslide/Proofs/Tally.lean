import Mathlib
import Unslide.Tally

/-!
# Unslide.Proofs.Tally

A threshold of zero asks for nothing, whatever the counters are. The number of mapped samples that
it asks for is a zero or not a number; and a counter is never below a zero.

* `lt_zero_of_isPlus`: no number with a plus sign is less than a zero.
* `isPlus_ofCount`: counters have a plus sign.
* `isNought_required`: what a threshold of zero comes to.
* `not_fallsShort_zero`: no run falls short of the threshold zero.
-/

namespace Unslide
namespace Decimal

open Float.Model Float.Model.UnpackedFloat

/-- A number with a plus sign, a zero of either sign, or not a number. -/
def IsPlus : UnpackedFloat → Prop
  | .infinity s => s = .positive
  | .notANumber => True
  | .zero _ => True
  | .finite s _ _ _ => s = .positive

theorem lt_zero_of_isPlus {u : UnpackedFloat} (h : IsPlus u) (s : Sign) :
    u.lt (.zero s) = false := by
  cases u with
  | infinity t =>
    cases h
    rfl
  | notANumber => rfl
  | zero t => rfl
  | finite t m e hm =>
    cases h
    rfl

theorem lt_notANumber (u : UnpackedFloat) : u.lt .notANumber = false := by
  cases u with
  | infinity t => cases t <;> rfl
  | notANumber => rfl
  | zero t => rfl
  | finite t m e hm => cases t <;> rfl

/-- A double whose first bit is clear has a plus sign. -/
theorem isPlus_unpack {b : BitVec Format.binary64.numBits}
    (h : @unpackSign Format.binary64 b = 0#1) :
    IsPlus (UnpackedFloat.unpack Format.binary64 b) := by
  have hsign : Sign.ofBitVec 0#1 = .positive := rfl
  simp only [UnpackedFloat.unpack, h, hsign]
  split
  · split
    · rfl
    · trivial
  · split
    · split
      · trivial
      · rfl
    · rfl

theorem unpackSign_pack {u : UnpackedFloat} (h : IsPlus u) (hz : ∀ s, u ≠ .zero s) :
    unpackSign (UnpackedFloat.pack Format.binary64 u) = 0#1 := by
  cases u with
  | infinity s =>
    cases h
    decide
  | notANumber => decide
  | zero s => exact absurd rfl (hz s)
  | finite s m e hm =>
    cases h
    simp only [UnpackedFloat.pack]
    split
    · decide
    · split <;> exact unpackSign_packComponents _ _ _

/-- Packing a number with a plus sign, and taking it apart again, leaves the plus sign. -/
theorem isPlus_unpack_pack {u : UnpackedFloat} (h : IsPlus u) :
    IsPlus (UnpackedFloat.unpack Format.binary64 (UnpackedFloat.pack Format.binary64 u)) := by
  cases u with
  | infinity s => exact isPlus_unpack (unpackSign_pack h nofun)
  | notANumber => exact isPlus_unpack (unpackSign_pack h nofun)
  | zero s => cases s <;> trivial
  | finite s m e hm => exact isPlus_unpack (unpackSign_pack h nofun)

theorem bitsOf_lt (num den : Nat) : bitsOf num den < signBit := by
  have hinf : infinityBits < signBit := by decide
  simp only [bitsOf]
  split
  · decide
  · split
    · exact hinf
    · rename_i hle
      exact Nat.lt_trans (Nat.lt_of_not_le hle) hinf

theorem isPlus_ofCount (n : Nat) : IsPlus (ofCount n).toModel.unpack := by
  refine isPlus_unpack_pack (isPlus_unpack ?_)
  have hbits := bitsOf_lt n 1
  generalize bitsOf n 1 = bits at hbits
  apply BitVec.eq_of_toNat_eq
  simp only [unpackSign, BitVec.toNat_cast, BitVec.extractLsb_toNat, UInt64.toNat_toBitVec]
  simp only [Bool.false_eq_true, if_false, UInt64.toNat_ofNat', Nat.shiftRight_eq_div_pow, signBit,
    BitVec.toNat_zero] at hbits ⊢
  omega

/-! ## Zeros -/

/-- A zero, or not a number. -/
def IsNought (u : UnpackedFloat) : Prop := u = .notANumber ∨ ∃ s, u = .zero s

theorem isNought_unpack_pack {u : UnpackedFloat} (h : IsNought u) :
    IsNought (UnpackedFloat.unpack Format.binary64 (UnpackedFloat.pack Format.binary64 u)) := by
  rcases h with rfl | ⟨s, rfl⟩
  · exact .inl rfl
  · cases s <;> exact .inr ⟨_, rfl⟩

theorem isNought_mul_zero (u : UnpackedFloat) (s : Sign) :
    IsNought (UnpackedFloat.mul Format.binary64 u (.zero s)) := by
  cases u with
  | infinity t => exact .inl rfl
  | notANumber => exact .inl rfl
  | zero t => exact .inr ⟨_, rfl⟩
  | finite t m e hm => exact .inr ⟨_, rfl⟩

theorem isNought_div_finite {u : UnpackedFloat} (h : IsNought u) (s : Sign) {m : Nat} (e : Int)
    (hm : 0 < m) : IsNought (UnpackedFloat.div Format.binary64 u (.finite s m e hm)) := by
  rcases h with rfl | ⟨t, rfl⟩
  · exact .inl rfl
  · exact .inr ⟨_, rfl⟩

theorem isNought_required (n : Nat) :
    IsNought (ofCount n * ofCount 0 / ofCount 100).toModel.unpack := by
  have hzero : (ofCount 0).toModel.unpack = .zero .positive := rfl
  have hproduct : IsNought (ofCount n * ofCount 0).toModel.unpack := by
    refine isNought_unpack_pack ?_
    rw [hzero]
    exact isNought_mul_zero _ _
  exact isNought_unpack_pack (isNought_div_finite hproduct _ _ _)

theorem not_lt_of_isNought {x y : Float} (hx : IsPlus x.toModel.unpack)
    (hy : IsNought y.toModel.unpack) : ¬ x < y := by
  intro hlt
  have hunpacked : x.toModel.unpack.lt y.toModel.unpack = true := of_decide_eq_true hlt
  rcases hy with hy | ⟨s, hy⟩
  · rw [hy, lt_notANumber] at hunpacked
    cases hunpacked
  · rw [hy, lt_zero_of_isPlus hx] at hunpacked
    cases hunpacked

end Decimal

/-- A threshold of zero is never missed. -/
theorem Tally.not_fallsShort_zero (t : Tally) : ¬ t.FallsShort (Decimal.ofCount 0) :=
  Decimal.not_lt_of_isNought (Decimal.isPlus_ofCount t.mapped)
    (Decimal.isNought_required t.samples)

end Unslide
