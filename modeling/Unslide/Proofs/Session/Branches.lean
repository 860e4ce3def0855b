import Mathlib.Data.List.Forall2
import Mathlib.Data.List.TakeWhile
import Unslide.Proofs.Session.Resolution

/-!
# Unslide.Proofs.Session.Branches

A branch stack is resolved whole or not at all. The walk over it stops at the first address that is
not resolved; by then it has rewritten branches, and each look-up has counted a hit. Yet whether it
comes to its end, and what it leaves of each branch, is told by the look-ups of single addresses in
the session as it was before.

* `stack_of_padded`, `strays_of_find?_some`: the two shapes of a stack, and what each comes to.
* `jumps_of_found`, `jumps_of_lost`: the walk over the branches in front of the padding.
* `branches_all_or_nothing`: what a branch stack comes to.
-/

namespace Unslide

namespace Branch

/-- The stack consists of branches and of padding behind them. -/
structure Padded (bs taken padding : List Branch) : Prop where
  split : bs = taken ++ padding
  taken : ∀ b ∈ taken, b.isNull = false
  padding : ∀ b ∈ padding, b.isNull = true

/-- A branch follows the padding. -/
def Strays (bs : List Branch) : Prop :=
  ∃ null b, [null, b].Sublist bs ∧ null.isNull = true ∧ b.isNull = false

variable {bs taken padding : List Branch}

theorem Padded.not_strays (h : Padded bs taken padding) : ¬ Strays bs := by
  have hordered : bs.Pairwise fun a b => a.isNull = true → b.isNull = true := by
    rw [h.split]
    refine List.pairwise_append.2 ⟨?_, ?_, ?_⟩
    · refine List.pairwise_of_forall_mem_list fun a ha _ _ hnull => ?_
      rw [h.taken a ha] at hnull
      cases hnull
    · exact List.pairwise_of_forall_mem_list fun _ _ b hb _ => h.padding b hb
    · exact fun _ _ b hb _ => h.padding b hb
  intro ⟨null, b, hsub, hnull, hreal⟩
  have hb := List.pairwise_iff_forall_sublist.1 hordered hsub hnull
  rw [hreal] at hb
  cases hb

theorem Padded.takeWhile_eq (h : Padded bs taken padding) :
    bs.takeWhile (fun b => !b.isNull) = taken := by
  have hpadding : padding.takeWhile (fun b => !b.isNull) = [] := by
    rw [List.takeWhile_eq_nil_iff]
    intro hpos
    simp [h.padding _ (List.getElem_mem hpos)]
  rw [h.split, List.takeWhile_append_of_pos fun b hb => by simp [h.taken b hb], hpadding,
    List.append_nil]

theorem Padded.dropWhile_eq (h : Padded bs taken padding) :
    bs.dropWhile (fun b => !b.isNull) = padding := by
  rw [h.split, List.dropWhile_append_of_pos fun b hb => by simp [h.taken b hb],
    List.dropWhile_eq_self_iff]
  intro hpos
  simp [h.padding _ (List.getElem_mem hpos)]

theorem padded_of_find?_none
    (h : (bs.dropWhile fun b => !b.isNull).find? (fun b => !b.isNull) = none) :
    Padded bs (bs.takeWhile fun b => !b.isNull) (bs.dropWhile fun b => !b.isNull) where
  split := List.takeWhile_append_dropWhile.symm
  taken b hb := by simpa using List.mem_takeWhile_imp hb
  padding b hb := by simpa using List.find?_eq_none.1 h b hb

theorem strays_of_find?_some {stray : Branch}
    (h : (bs.dropWhile fun b => !b.isNull).find? (fun b => !b.isNull) = some stray) :
    Strays bs := by
  have hsub := List.dropWhile_sublist (l := bs) fun b => !b.isNull
  have hfirst := List.head?_dropWhile_not (fun b : Branch => !b.isNull) bs
  have hreal : stray.isNull = false := by simpa using List.find?_some h
  have hin := List.mem_of_find?_eq_some h
  cases hpadding : bs.dropWhile fun b => !b.isNull with
  | nil =>
    rw [hpadding] at hin
    cases hin
  | cons null rest =>
    rw [hpadding] at hin hsub hfirst
    have hnull : null.isNull = true := by simpa using hfirst
    have hrest : stray ∈ rest := by
      rcases List.mem_cons.1 hin with rfl | hrest
      · rw [hnull] at hreal
        cases hreal
      · exact hrest
    have hpair : [null, stray].Sublist (null :: rest) :=
      .cons_cons null (List.singleton_sublist.2 hrest)
    exact ⟨null, stray, hpair.trans hsub, hnull, hreal⟩

end Branch

namespace Session

/-- Both ends of a branch are resolved. -/
def EndsFound (look : Nat → Option Hit) (b : Branch) : Prop :=
  (look b.source).isSome = true ∧ (look b.target).isSome = true

/-- The branch `b'` shows what is written for the ends of `b`. -/
structure Rewrites (look : Nat → Option Hit) (b b' : Branch) : Prop where
  source : (look b.source).map Hit.address = some b'.source
  target : (look b.target).map Hit.address = some b'.target
  mispredicted : b'.mispredicted = b.mispredicted

/-- The answer `r` tells where the ends of `b` belong. -/
structure Locates (look : Nat → Option Hit) (b : Branch) (r : ResolvedBranch) : Prop where
  source : (look b.source).map Hit.location = some r.source
  target : (look b.target).map Hit.location = some r.target
  predicted : r.predicted = !b.mispredicted

/-- What a branch stack comes to, told by what its addresses resolve to in the session before it. -/
structure StackTold (s : Session) (thread : Thread) (bs : List Branch)
    (t : Step Session ResolvedStack) : Prop where
  resolved_iff : t.answer.resolved.isSome = true ↔ ∃ taken padding,
    Branch.Padded bs taken padding ∧ ∀ b ∈ taken, EndsFound (s.hitOf thread) b
  /-- Each branch in front of the padding is rewritten and told, in order. -/
  found : ∀ taken padding, Branch.Padded bs taken padding →
    (∀ b ∈ taken, EndsFound (s.hitOf thread) b) → ∃ written branches,
      t.answer = ⟨written ++ padding, some branches⟩ ∧
      List.Forall₂ (Rewrites (s.hitOf thread)) taken written ∧
      List.Forall₂ (Locates (s.hitOf thread)) taken branches
  /-- Of the first branch that is not resolved the source may be; what follows is left. -/
  lost : ∀ done b rest padding, Branch.Padded bs (done ++ b :: rest) padding →
    (∀ d ∈ done, EndsFound (s.hitOf thread) d) → ¬ EndsFound (s.hitOf thread) b → ∃ written,
      t.answer = ⟨written ++ { b with source := Session.written (s.hitOf thread) b.source } ::
        rest ++ padding, none⟩ ∧
      List.Forall₂ (Rewrites (s.hitOf thread)) done written
  strays : Branch.Strays bs → t.answer = ⟨bs, none⟩ ∧ t.state = s
  /-- No branch is added or dropped, and none changes its mark. -/
  marks : t.answer.stack.map Branch.mispredicted = bs.map Branch.mispredicted

variable {look : Nat → Option Hit} {bs taken padding : List Branch} {b : Branch}

/-! ## The walk -/

theorem jumps_of_found (h : ∀ b ∈ bs, EndsFound look b) : ∃ written branches,
    jumps look bs = ⟨written, some branches⟩ ∧ List.Forall₂ (Rewrites look) bs written ∧
      List.Forall₂ (Locates look) bs branches := by
  induction bs with
  | nil => exact ⟨[], [], rfl, .nil, .nil⟩
  | cons b rest ih =>
    obtain ⟨hsource, htarget⟩ := h b (by simp)
    obtain ⟨source, hs⟩ := Option.isSome_iff_exists.1 hsource
    obtain ⟨target, ht⟩ := Option.isSome_iff_exists.1 htarget
    obtain ⟨written, branches, hjumps, hwritten, hbranches⟩ := ih fun c hc => h c (by simp [hc])
    refine ⟨⟨source.address, target.address, b.mispredicted⟩ :: written,
      ⟨source.location, target.location, !b.mispredicted⟩ :: branches, ?_, ?_, ?_⟩
    · simp only [jumps, hs, ht, hjumps, Option.map_some]
    · exact .cons ⟨by simp [hs], by simp [ht], rfl⟩ hwritten
    · exact .cons ⟨by simp [hs], by simp [ht], rfl⟩ hbranches

/-- The first branch that is not resolved ends the walk. -/
theorem jumps_of_lost {done : List Branch} (h : ∀ d ∈ done, EndsFound look d)
    (hb : ¬ EndsFound look b) (rest : List Branch) : ∃ written,
      jumps look (done ++ b :: rest) =
        ⟨written ++ { b with source := Session.written look b.source } :: rest, none⟩ ∧
      List.Forall₂ (Rewrites look) done written := by
  induction done with
  | nil =>
    refine ⟨[], ?_, .nil⟩
    cases hs : look b.source with
    | none => simp only [jumps, written, hs, List.nil_append]
    | some source =>
      cases ht : look b.target with
      | none => simp only [jumps, written, hs, ht, List.nil_append]
      | some target => exact absurd ⟨by simp [hs], by simp [ht]⟩ hb
  | cons d others ih =>
    obtain ⟨hsource, htarget⟩ := h d (by simp)
    obtain ⟨source, hs⟩ := Option.isSome_iff_exists.1 hsource
    obtain ⟨target, ht⟩ := Option.isSome_iff_exists.1 htarget
    obtain ⟨written, hjumps, hwritten⟩ := ih fun c hc => h c (by simp [hc])
    refine ⟨⟨source.address, target.address, d.mispredicted⟩ :: written, ?_, ?_⟩
    · simp only [jumps, List.cons_append, hs, ht, hjumps, Option.map_none]
    · exact .cons ⟨by simp [hs], by simp [ht], rfl⟩ hwritten

theorem marks_jumps (look : Nat → Option Hit) (bs : List Branch) :
    (jumps look bs).stack.map Branch.mispredicted = bs.map Branch.mispredicted := by
  induction bs with
  | nil => rfl
  | cons b rest ih =>
    simp only [jumps]
    split
    · rfl
    · split
      · rfl
      · simp only [List.map_cons, ih]

/-! ## Whole stacks -/

theorem stack_of_padded (h : Branch.Padded bs taken padding) :
    stack look bs = { jumps look taken with stack := (jumps look taken).stack ++ padding } := by
  have hnone : padding.find? (fun b => !b.isNull) = none :=
    List.find?_eq_none.2 fun b hb => by simp [h.padding b hb]
  simp only [stack, h.takeWhile_eq, h.dropWhile_eq, hnone]

theorem stack_of_strays (h : Branch.Strays bs) (look : Nat → Option Hit) :
    stack look bs = ⟨bs, none⟩ ∧ stackLookedUp look bs = [] := by
  simp only [stack, stackLookedUp]
  cases hstray : (bs.dropWhile fun b => !b.isNull).find? fun b => !b.isNull with
  | none => exact absurd h (Branch.padded_of_find?_none hstray).not_strays
  | some stray => exact ⟨rfl, rfl⟩

theorem isSome_resolved_stack_iff : (stack look bs).resolved.isSome = true ↔
    ∃ taken padding, Branch.Padded bs taken padding ∧ ∀ b ∈ taken, EndsFound look b := by
  constructor
  · intro h
    obtain ⟨hnone, hjumps⟩ := stray_of_stack h
    exact ⟨_, _, Branch.padded_of_find?_none hnone, isSome_of_jumps hjumps⟩
  · intro ⟨taken, padding, hpadded, hfound⟩
    obtain ⟨written, branches, hjumps, -, -⟩ := jumps_of_found hfound
    rw [stack_of_padded hpadded, hjumps]
    rfl

theorem marks_stack (look : Nat → Option Hit) (bs : List Branch) :
    (stack look bs).stack.map Branch.mispredicted = bs.map Branch.mispredicted := by
  cases hstray : (bs.dropWhile fun b => !b.isNull).find? fun b => !b.isNull with
  | some stray => rw [(stack_of_strays (Branch.strays_of_find?_some hstray) look).1]
  | none =>
    have hpadded := Branch.padded_of_find?_none hstray
    rw [stack_of_padded hpadded]
    conv_rhs => rw [hpadded.split]
    simp only [List.map_append, marks_jumps]

/-- **A branch stack is resolved whole or not at all.** In whatever state a session is, and whatever
stack it is given, what the stack comes to is what the look-ups of its single addresses in that
state say. -/
theorem branches_all_or_nothing (s : Session) (thread : Thread) (bs : List Branch) :
    s.StackTold thread bs (s.branches thread bs) := by
  have hanswer := answer_branches s thread bs
  refine ⟨?resolved_iff, ?found, ?lost, ?strays, ?marks⟩
  case resolved_iff =>
    rw [hanswer]
    exact isSome_resolved_stack_iff
  case found =>
    intro taken padding hpadded hfound
    obtain ⟨written, branches, hjumps, hwritten, hbranches⟩ := jumps_of_found hfound
    refine ⟨written, branches, ?_, hwritten, hbranches⟩
    rw [hanswer, stack_of_padded hpadded, hjumps]
  case lost =>
    intro done b rest padding hpadded hfound hb
    obtain ⟨written, hjumps, hwritten⟩ := jumps_of_lost hfound hb rest
    refine ⟨written, ?_, hwritten⟩
    rw [hanswer, stack_of_padded hpadded, hjumps]
  case strays =>
    intro hstrays
    obtain ⟨hstack, hnone⟩ := stack_of_strays hstrays (s.hitOf thread)
    rw [hanswer, hstack, state_branches, hnone]
    exact ⟨rfl, rfl⟩
  case marks =>
    rw [hanswer]
    exact marks_stack (s.hitOf thread) bs

/-- The target of the second branch lies nowhere. So its source is still replaced, and the branch
behind it is left. Without these two the stack is resolved; with its padding in front, nothing is
done. -/
theorem branches_all_or_nothing_partly_resolved :
    let found : Branch := ⟨0x10010, 0x11000, true⟩
    let bs : List Branch := [found, ⟨0x10020, 0x99000, false⟩, ⟨0x10040, 0x10050, false⟩, .null]
    let t := twoPages.branches ⟨7, 7⟩ bs
    twoPages.StackTold ⟨7, 7⟩ bs t ∧
      t.answer = ⟨[⟨0x10, 0x1000, true⟩, ⟨0x20, 0x99000, false⟩, ⟨0x10040, 0x10050, false⟩,
        .null], none⟩ ∧
      (¬ ∃ taken padding, Branch.Padded bs taken padding ∧
        ∀ b ∈ taken, EndsFound (twoPages.hitOf ⟨7, 7⟩) b) ∧
      (twoPages.branches ⟨7, 7⟩ [found, .null]).answer =
        ⟨[⟨0x10, 0x1000, true⟩, .null], some [⟨⟨0, 0x10⟩, ⟨0, 0x1000⟩, false⟩]⟩ ∧
      (twoPages.branches ⟨7, 7⟩ [.null, found]).answer = ⟨[.null, found], none⟩ ∧
      (twoPages.branches ⟨7, 7⟩ [.null, found]).state = twoPages := by
  intro found bs t
  have htold : twoPages.StackTold ⟨7, 7⟩ bs t := branches_all_or_nothing twoPages ⟨7, 7⟩ bs
  have hlost : t.answer = ⟨[⟨0x10, 0x1000, true⟩, ⟨0x20, 0x99000, false⟩,
      ⟨0x10040, 0x10050, false⟩, .null], none⟩ := by decide
  have hnone : ¬ t.answer.resolved.isSome = true := by
    rw [hlost]
    exact Bool.false_ne_true
  have hstrays : Branch.Strays [.null, found] := ⟨.null, found, .refl _, rfl, rfl⟩
  have hleft := (branches_all_or_nothing twoPages ⟨7, 7⟩ [.null, found]).strays hstrays
  exact ⟨htold, hlost, fun hfound => hnone (htold.resolved_iff.2 hfound), by decide, hleft⟩

end Session
end Unslide
