import Unslide.Proofs.Session.Branches
import Unslide.Proofs.Session.Hiding
import Unslide.Proofs.Session.Rereading

/-!
# Unslide.Proofs.Session.Padding

The padding of a rewritten branch stack. Padding is known by its value alone, a predicted branch
from `0` to `0`, and `0` is also the first synthetic address. So a branch is taken for padding once
it is rewritten, if it leads from the address that `0` stands for to itself and was predicted. No
other branch is, and padding stays padding.

* `isNull_writtenBranch_iff`: when the branch that is written is null.
* `keepsPadding_of_isNull`: what it means for a reader that no branch changes its kind.
* `padding_kept_iff`: exactly when a stack that is resolved keeps its padding.
-/

namespace Unslide
namespace Session

/-- The stack `bs'` that was written for `bs` has its padding where `bs` has it. A reader that trims
the padding accepts it, and is left with `n` branches. -/
structure KeepsPadding (bs bs' : List Branch) (n : Nat) : Prop where
  kinds : List.Forall₂ (fun b b' => b'.isNull = b.isNull) bs bs'
  leading : (bs'.takeWhile fun b => !b.isNull).length = n
  accepted : ¬ Branch.Strays bs'

/-- A predicted branch from an address to itself, for which the synthetic address `0` stands. -/
structure Vanishes (s : Session) (pid : Nat) (b : Branch) : Prop where
  real : b.isNull = false
  predicted : b.mispredicted = false
  loop : b.target = b.source
  first : s.StandsFor pid 0 b.source

variable {s : Session} {o : Options} {look : Nat → Option Hit} {bs : List Branch} {b : Branch}

theorem isNull_eq_true_iff :
    b.isNull = true ↔ b.source = 0 ∧ b.target = 0 ∧ b.mispredicted = false := by
  obtain ⟨source, target, mispredicted⟩ := b
  simp [Branch.isNull, Branch.null]

theorem written_eq_zero_iff {addr : Nat} (h : (look addr).isSome = true) :
    written look addr = 0 ↔ (look addr).map Hit.address = some 0 := by
  obtain ⟨hit, hhit⟩ := Option.isSome_iff_exists.1 h
  simp only [written, hhit, Option.map_some, Option.some.injEq]

/-- What is written for a branch is null if the branch is, or if `0` is written for both ends. -/
theorem isNull_writtenBranch_iff (hb : b.isNull = false → EndsFound look b) :
    (writtenBranch look b).isNull = true ↔ b.isNull = true ∨
      b.isNull = false ∧ b.mispredicted = false ∧ (look b.source).map Hit.address = some 0 ∧
        (look b.target).map Hit.address = some 0 := by
  cases hnull : b.isNull with
  | true => simp only [writtenBranch, hnull, if_true, true_or]
  | false =>
    obtain ⟨hsource, htarget⟩ := hb hnull
    simp only [writtenBranch, hnull, Bool.false_eq_true, if_false, false_or, true_and,
      isNull_eq_true_iff, written_eq_zero_iff hsource, written_eq_zero_iff htarget]
    constructor
    · rintro ⟨hs, ht, hm⟩
      exact ⟨hm, hs, ht⟩
    · rintro ⟨hm, hs, ht⟩
      exact ⟨hs, ht, hm⟩

theorem vanishes_iff (thread : Thread) (h : s.Steady) (hk : s.options.Keeps)
    (hremap : s.options.remap = true) :
    s.Vanishes thread.pid b ↔ b.isNull = false ∧ b.mispredicted = false ∧
      (s.hitOf thread b.source).map Hit.address = some 0 ∧
      (s.hitOf thread b.target).map Hit.address = some 0 := by
  constructor
  · intro ⟨hreal, hpredicted, hloop, hfirst⟩
    have hfound := (standsFor_iff thread h hk hremap).1 hfirst
    exact ⟨hreal, hpredicted, hfound, by rw [hloop, hfound]⟩
  · intro ⟨hreal, hpredicted, hsource, htarget⟩
    refine ⟨hreal, hpredicted, ?_, (standsFor_iff thread h hk hremap).2 hsource⟩
    -- no two addresses are written alike, so both ends are the same
    obtain ⟨x, hx, hx0⟩ := Option.map_eq_some_iff.1 hsource
    obtain ⟨y, hy, hy0⟩ := Option.map_eq_some_iff.1 htarget
    exact apart_hitOf h hk hremap _ _ _ _ hy hx (hy0.trans hx0.symm)

/-- If every branch keeps its kind, trimming leaves as many branches as were resolved. -/
theorem keepsPadding_of_isNull {branches : List ResolvedBranch}
    (h : (stack look bs).resolved = some branches)
    (hkinds : ∀ b ∈ bs, (writtenBranch look b).isNull = b.isNull) :
    KeepsPadding bs (bs.map (writtenBranch look)) branches.length := by
  obtain ⟨taken, padding, hpadded, hfound⟩ := isSome_resolved_stack_iff.1 (by rw [h]; rfl)
  obtain ⟨written, branches', hjumps, -, htold⟩ := jumps_of_found hfound
  rw [stack_of_padded hpadded, hjumps, Option.some.injEq] at h
  subst h
  have hwritten : Branch.Padded (bs.map (writtenBranch look)) (taken.map (writtenBranch look))
      (padding.map (writtenBranch look)) := by
    refine ⟨by rw [hpadded.split, List.map_append], ?_, ?_⟩
    · rw [List.forall_mem_map]
      intro b hb
      rw [hkinds b (by rw [hpadded.split]; simp [hb]), hpadded.taken b hb]
    · rw [List.forall_mem_map]
      intro b hb
      rw [hkinds b (by rw [hpadded.split]; simp [hb]), hpadded.padding b hb]
  refine ⟨?_, ?_, hwritten.not_strays⟩
  · rw [List.forall₂_map_right_iff, List.forall₂_same]
    exact hkinds
  · rw [hwritten.takeWhile_eq, List.length_map, htold.length_eq]

/-- **What a branch stack keeps of its padding.** Whatever state a session that remaps has come to,
and whatever stack it resolves: an entry that is written is null if it was, or if its branch
vanishes. So padding and branches are told apart as before, and a reader that trims the padding is
left with the branches that were resolved, exactly if no branch vanishes. -/
theorem padding_kept_iff (h : Reachable o s) (hremap : o.remap = true)
    (hpage : isPowerOfTwo o.alignment = true) (thread : Thread)
    {branches : List ResolvedBranch}
    (hresolved : (s.branches thread bs).answer.resolved = some branches) :
    List.Forall₂ (fun b b' => b'.isNull = true ↔ b.isNull = true ∨ s.Vanishes thread.pid b) bs
      (s.branches thread bs).answer.stack ∧
    (KeepsPadding bs (s.branches thread bs).answer.stack branches.length ↔
      ∀ b ∈ bs, ¬ s.Vanishes thread.pid b) := by
  obtain ⟨hs, rfl⟩ := h.steady
  rw [answer_branches] at hresolved ⊢
  have hsome : (stack (s.hitOf thread) bs).resolved.isSome = true := by rw [hresolved]; rfl
  have hnull : ∀ b ∈ bs, (writtenBranch (s.hitOf thread) b).isNull = true ↔
      b.isNull = true ∨ s.Vanishes thread.pid b := by
    intro b hb
    rw [vanishes_iff thread hs (.inr hpage) hremap]
    exact isNull_writtenBranch_iff (isSome_of_stack hsome b hb)
  rw [stack_of_resolved hsome]
  refine ⟨?_, ?_, ?_⟩
  · rw [List.forall₂_map_right_iff, List.forall₂_same]
    exact hnull
  · intro hkeeps b hb hvanishes
    have hkinds := hkeeps.kinds
    rw [List.forall₂_map_right_iff, List.forall₂_same] at hkinds
    have hwritten := (hnull b hb).2 (.inr hvanishes)
    rw [hkinds b hb, hvanishes.real] at hwritten
    cases hwritten
  · intro hnone
    refine keepsPadding_of_isNull hresolved fun b hb => ?_
    rw [Bool.eq_iff_iff, hnull b hb]
    exact or_iff_left (hnone b hb)

/-- A branch that leaves the first byte of the process, and a mispredicted loop on it. Only one of
the ends is `0` in the first, and the second has its mark to tell it from padding. -/
theorem padding_kept_first_byte :
    let bs : List Branch :=
      [⟨0x10000, 0x10010, false⟩, ⟨0x10000, 0x10000, true⟩, .null, .null]
    let t := twoPages.branches ⟨7, 7⟩ bs
    Reachable .default twoPages ∧ Options.default.remap = true ∧
      isPowerOfTwo Options.default.alignment = true ∧
      t.answer = ⟨[⟨0, 0x10, false⟩, ⟨0, 0, true⟩, .null, .null],
        some [⟨⟨0, 0⟩, ⟨0, 0x10⟩, true⟩, ⟨⟨0, 0⟩, ⟨0, 0⟩, false⟩]⟩ ∧
      KeepsPadding bs t.answer.stack 2 := by
  intro bs t
  have hpage : isPowerOfTwo Options.default.alignment = true := isPowerOfTwo_systemPage none
  refine ⟨reachable_twoPages, rfl, hpage, by decide, ?_⟩
  have hresolved : (twoPages.branches ⟨7, 7⟩ bs).answer.resolved =
      some [⟨⟨0, 0⟩, ⟨0, 0x10⟩, true⟩, ⟨⟨0, 0⟩, ⟨0, 0⟩, false⟩] := by decide
  refine (padding_kept_iff reachable_twoPages rfl hpage ⟨7, 7⟩ hresolved).2.2 ?_
  intro b hb hvanishes
  simp only [bs, List.mem_cons, List.not_mem_nil, or_false] at hb
  rcases hb with rfl | rfl | rfl | rfl
  · exact absurd hvanishes.loop (by decide)
  · exact absurd hvanishes.predicted (by decide)
  · exact absurd hvanishes.real (by decide)
  · exact absurd hvanishes.real (by decide)

/-- The first branch of the stack is a predicted loop on the first byte of the process. It is
resolved, and written as padding, so the branch behind it is taken for a stray one. -/
theorem loop_on_first_byte_vanishes :
    let bs : List Branch := [⟨0x10000, 0x10000, false⟩, ⟨0x10040, 0x10050, false⟩]
    let t := twoPages.branches ⟨7, 7⟩ bs
    Reachable .default twoPages ∧ Options.default.remap = true ∧
      isPowerOfTwo Options.default.alignment = true ∧
      t.answer = ⟨[.null, ⟨0x40, 0x50, false⟩],
        some [⟨⟨0, 0⟩, ⟨0, 0⟩, true⟩, ⟨⟨0, 0x40⟩, ⟨0, 0x50⟩, true⟩]⟩ ∧
      ¬ List.Forall₂ (fun b b' => b'.isNull = true ↔ b.isNull = true) bs t.answer.stack ∧
      (t.answer.stack.takeWhile fun b => !b.isNull).length = 0 ∧
      Branch.Strays t.answer.stack := by
  intro bs t
  have hanswer : t.answer = ⟨[.null, ⟨0x40, 0x50, false⟩],
      some [⟨⟨0, 0⟩, ⟨0, 0⟩, true⟩, ⟨⟨0, 0x40⟩, ⟨0, 0x50⟩, true⟩]⟩ := by decide
  refine ⟨reachable_twoPages, rfl, isPowerOfTwo_systemPage none, hanswer, ?_, ?_, ?_⟩
  · rw [hanswer]
    intro hkinds
    exact absurd ((List.forall₂_cons.1 hkinds).1.1 (by decide)) (by decide)
  · rw [hanswer]
    decide
  · rw [hanswer]
    exact ⟨_, _, .refl _, by decide, by decide⟩

end Session
end Unslide
