import Mathlib.Data.List.Forall2
import Mathlib.Data.List.TakeWhile
import Unslide.Proofs.Session.Steady

/-!
# Unslide.Proofs.Session.Hiding

What a remapped sample still shows of the real addresses. An address that has a synthetic address to
stand for it is replaced in the sampled address and in the whole call chain, whatever becomes of the
other addresses. A walk over branches stops at the first address that is not resolved, and is not
begun if a branch follows the padding. The addresses that it passes over stay as they are, also
those that have a synthetic address to stand for them.

* `Reachable.steady`: the sessions that are meant.
* `standsFor_iff`: an address has a stand-in exactly if it is resolved.
* `written_stack_iff`: the addresses of a branch stack that are left.
* `hides_sample_iff`: exactly when no address is left that has a stand-in.
-/

namespace Unslide

/-- The addresses of branches, in the order in which they are looked up. -/
def Branch.ends (bs : List Branch) : List Nat := bs.flatMap fun b => [b.source, b.target]

namespace Session

/-- The states that a session of the given options can come to, records being taken and addresses
looked up in any order. -/
inductive Reachable (o : Options) : Session → Prop where
  | start : Reachable o (.start o)
  | register {s : Session} (e : Mmap) (id : Nat) :
      Reachable o s → Reachable o (s.register e id).state
  | fork {s : Session} (e : Lineage) : Reachable o s → Reachable o (s.fork e).state
  | nameThread {s : Session} (e : Naming) : Reachable o s → Reachable o (s.nameThread e).state
  | resolve {s : Session} (addr : Nat) (thread : Thread) :
      Reachable o s → Reachable o (s.resolve addr thread).state
  | chain {s : Session} (ip sampled : Nat) (thread : Thread) (values : List Nat) :
      Reachable o s → Reachable o (s.chain ip sampled thread values).state
  | branches {s : Session} (thread : Thread) (bs : List Branch) :
      Reachable o s → Reachable o (s.branches thread bs).state
  | sample {s : Session} (e : Sample) : Reachable o s → Reachable o (s.sample e).state

/-- The synthetic address `place` stands for an address of a process: the address lies in a region
of the process whose mapping is on record, and `place` is where the region puts it. -/
def StandsFor (s : Session) (pid place addr : Nat) : Prop :=
  ∃ slot r, (s.spaceOf pid).regionAt? slot = some r ∧ r.Contains addr ∧
    (s.mappings.find? r.id).isSome = true ∧ place = r.placeOf addr

/-- Where `addr` stood, `shown` is the synthetic address that stands for it, if there is one. -/
def HidesAt (s : Session) (pid addr shown : Nat) : Prop :=
  ∀ place, s.StandsFor pid place addr → shown = place

/-- The sample `e'` shows no address of `e` that has a synthetic address to stand for it. Markers of
the call chain and the padding of the branch stack are no addresses. -/
structure Hides (s : Session) (e e' : Sample) : Prop where
  ip : s.HidesAt e.pid e.ip e'.ip
  callchain : List.Forall₂ (fun a a' => isMarker a = false → s.HidesAt e.pid a a')
    e.callchain e'.callchain
  branches : List.Forall₂
    (fun b b' => b.isNull = false →
      s.HidesAt e.pid b.source b'.source ∧ s.HidesAt e.pid b.target b'.target)
    e.branches e'.branches

/-- The addresses of a branch stack that a walk over it leaves as they are: all, if a branch follows
the padding, and else those from the first one on that is not resolved. -/
def leftOver (look : Nat → Option Hit) (bs : List Branch) : List Nat :=
  match (bs.dropWhile fun b => !b.isNull).find? fun b => !b.isNull with
  | some _ => Branch.ends (bs.filter fun b => !b.isNull)
  | none => (Branch.ends (bs.takeWhile fun b => !b.isNull)).dropWhile fun a => (look a).isSome

/-- The addresses of a sample that are passed over when it is resolved. -/
def passedOver (s : Session) (e : Sample) : List Nat := leftOver (s.hitOf e.thread) e.branches

variable {s : Session} {o : Options} {look : Nat → Option Hit} {addr place shown : Nat}

theorem Reachable.steady (h : Reachable o s) : s.Steady ∧ s.options = o := by
  induction h with
  | start => exact ⟨.start o, rfl⟩
  | register e id _ ih =>
    refine ⟨steady_register ih.1 e id, ?_⟩
    rw [← ih.2]
    rcases state_register _ e id with heq | heq <;> rw [heq] <;> rfl
  | fork e _ ih =>
    refine ⟨steady_fork ih.1 e, ?_⟩
    rw [← ih.2]
    simp only [Session.fork]
    split <;> rfl
  | nameThread e _ ih => exact ⟨steady_nameThread ih.1 e, ih.2⟩
  | resolve addr thread _ ih =>
    exact ⟨steady_resolve ih.1 addr thread, (opened_resolve _ addr thread).options.trans ih.2⟩
  | chain ip sampled thread values _ ih =>
    rw [state_chain]
    exact ⟨steady_resolveAll ih.1 _ _, (options_resolveAll _ _ _).trans ih.2⟩
  | branches thread bs _ ih =>
    rw [state_branches]
    exact ⟨steady_resolveAll ih.1 _ _, (options_resolveAll _ _ _).trans ih.2⟩
  | sample e _ ih =>
    rw [state_sample]
    exact ⟨steady_resolveAll ih.1 _ _, (options_resolveAll _ _ _).trans ih.2⟩

/-! ## One address -/

/-- An address has a stand-in exactly if it is resolved, and then that is what is written for it. -/
theorem standsFor_iff (thread : Thread) (h : s.Steady) (hk : s.options.Keeps)
    (hremap : s.options.remap = true) :
    s.StandsFor thread.pid place addr ↔ (s.hitOf thread addr).map Hit.address = some place := by
  simp only [StandsFor, Option.map_eq_some_iff, hitOf_eq_some_iff h hk]
  constructor
  · rintro ⟨slot, r, hr, hc, hrecorded, rfl⟩
    obtain ⟨m, hm⟩ := Option.isSome_iff_exists.1 hrecorded
    refine ⟨_, ⟨r.bare, Space.mem_blocks_of_regionAt? hr, hc, m, hm, rfl⟩, ?_⟩
    simp only [Session.shown, hremap, Bool.true_eq_false, if_false]
    rfl
  · rintro ⟨hit, ⟨b, ⟨slot, r, hr, rfl⟩, hc, m, hm, rfl⟩, rfl⟩
    refine ⟨slot, r, hr, hc, Option.isSome_iff_exists.2 ⟨m, hm⟩, ?_⟩
    simp only [Session.shown, hremap, Bool.true_eq_false, if_false]
    rfl

/-- What a look-up finds for `addr` is what is shown. -/
def Written (look : Nat → Option Hit) (addr shown : Nat) : Prop :=
  ∀ hit, look addr = some hit → shown = hit.address

theorem hidesAt_iff (thread : Thread) (h : s.Steady) (hk : s.options.Keeps)
    (hremap : s.options.remap = true) :
    s.HidesAt thread.pid addr shown ↔ Written (s.hitOf thread) addr shown := by
  simp only [HidesAt, Written, standsFor_iff thread h hk hremap, Option.map_eq_some_iff]
  constructor
  · exact fun hall hit hhit => hall _ ⟨hit, hhit, rfl⟩
  · rintro hall place ⟨hit, hhit, rfl⟩
    exact hall hit hhit

theorem written_written (look : Nat → Option Hit) (addr : Nat) :
    Written look addr (written look addr) := by
  intro hit hhit
  simp only [written, hhit]

/-! ## Walks -/

theorem written_frames (look : Nat → Option Hit) (sampled : Nat) (values : List Nat) :
    List.Forall₂ (fun a a' => isMarker a = false → Written look a a') values
      (frames look (written look sampled) sampled values).values := by
  simp only [frames, List.forall₂_map_right_iff, List.forall₂_same]
  intro value _ hmarker
  simp only [rewritten, hmarker, Bool.false_eq_true, if_false]
  split
  · rename_i heq
    subst heq
    exact written_written look value
  · exact written_written look value

/-- Both ends of a branch show what a look-up finds for them; padding is left out. -/
def WrittenBranch (look : Nat → Option Hit) (b b' : Branch) : Prop :=
  b.isNull = false → Written look b.source b'.source ∧ Written look b.target b'.target

theorem written_same_iff (look : Nat → Option Hit) (bs : List Branch) :
    List.Forall₂ (WrittenBranch look) bs bs ↔
      ∀ a ∈ Branch.ends (bs.filter fun b => !b.isNull), Written look a a := by
  simp only [List.forall₂_same, Branch.ends, List.mem_flatMap, List.mem_filter,
    Bool.not_eq_true', WrittenBranch, List.mem_cons, List.not_mem_nil, or_false]
  constructor
  · rintro hall a ⟨b, ⟨hb, hreal⟩, rfl | rfl⟩
    · exact (hall b hb hreal).1
    · exact (hall b hb hreal).2
  · intro hall b hb hreal
    exact ⟨hall _ ⟨b, ⟨hb, hreal⟩, .inl rfl⟩, hall _ ⟨b, ⟨hb, hreal⟩, .inr rfl⟩⟩

/-- Branches in front of padding show what is found for them up to the first address that is not
resolved; behind it they are as they were. -/
theorem written_jumps_iff (look : Nat → Option Hit) {taken padding : List Branch}
    (hreal : ∀ b ∈ taken, b.isNull = false) (hnull : ∀ b ∈ padding, b.isNull = true) :
    List.Forall₂ (WrittenBranch look) (taken ++ padding) ((jumps look taken).stack ++ padding) ↔
      ∀ a ∈ (Branch.ends taken).dropWhile fun a => (look a).isSome, Written look a a := by
  induction taken with
  | nil =>
    simp only [jumps, List.nil_append, List.forall₂_same, Branch.ends, List.flatMap_nil,
      List.dropWhile_nil, List.not_mem_nil, false_imp_iff, implies_true, iff_true, WrittenBranch]
    intro b hb hb'
    rw [hnull b hb] at hb'
    cases hb'
  | cons b rest ih =>
    have hb : b.isNull = false := hreal b (by simp)
    have hrest : ∀ c ∈ rest, c.isNull = false := fun c hc => hreal c (by simp [hc])
    have hends : Branch.ends (b :: rest) = b.source :: b.target :: Branch.ends rest := rfl
    have hfilter : (rest ++ padding).filter (fun c => !c.isNull) = rest := by
      rw [List.filter_append, List.filter_eq_self.2 fun c hc => by rw [hrest c hc]; rfl,
        List.filter_eq_nil_iff.2 fun c hc => by simp [hnull c hc], List.append_nil]
    have hsame := written_same_iff look (rest ++ padding)
    rw [hfilter] at hsame
    rw [hends]
    cases hsource : look b.source with
    | none =>
      simp only [jumps, hsource, List.cons_append, List.forall₂_cons, hsame, WrittenBranch, hb,
        true_imp_iff, List.dropWhile_cons, Option.isSome_none, Bool.false_eq_true, if_false,
        List.forall_mem_cons, and_assoc]
    | some source =>
      have hshown : Written look b.source source.address := by
        intro hit hhit
        cases hsource.symm.trans hhit
        rfl
      cases htarget : look b.target with
      | none =>
        simp only [jumps, hsource, htarget, List.cons_append, List.forall₂_cons, hsame,
          WrittenBranch, hb, true_imp_iff, hshown, true_and, List.dropWhile_cons,
          Option.isSome_some, Option.isSome_none, Bool.false_eq_true, if_true, if_false,
          List.forall_mem_cons]
      | some target =>
        have hshown' : Written look b.target target.address := by
          intro hit hhit
          cases htarget.symm.trans hhit
          rfl
        simp only [jumps, hsource, htarget, List.cons_append, List.forall₂_cons, ih hrest,
          WrittenBranch, hb, true_imp_iff, hshown, hshown', true_and, List.dropWhile_cons,
          Option.isSome_some, if_true]

theorem written_stack_iff (look : Nat → Option Hit) (bs : List Branch) :
    List.Forall₂ (WrittenBranch look) bs (stack look bs).stack ↔
      ∀ a ∈ leftOver look bs, Written look a a := by
  simp only [stack, leftOver]
  cases hstray : (bs.dropWhile fun b => !b.isNull).find? fun b => !b.isNull with
  | some stray => exact written_same_iff look bs
  | none =>
    have hreal : ∀ b ∈ bs.takeWhile fun b => !b.isNull, b.isNull = false := by
      intro b hb
      simpa using List.mem_takeWhile_imp hb
    have hnull : ∀ b ∈ bs.dropWhile fun b => !b.isNull, b.isNull = true := by
      intro b hb
      simpa using List.find?_eq_none.1 hstray b hb
    have hjumps := written_jumps_iff look hreal hnull
    rw [List.takeWhile_append_dropWhile] at hjumps
    exact hjumps

/-! ## Samples -/

/-- **What a remapped sample hides.** Whatever state a session that remaps has come to, and whatever
sample it resolves: no address that has a synthetic address to stand for it is left in the sample,
exactly if there is none among the addresses of the branch stack that are passed over. -/
theorem hides_sample_iff (h : Reachable o s) (hremap : o.remap = true)
    (hpage : isPowerOfTwo o.alignment = true) (e : Sample) :
    s.Hides e (s.sample e).answer.1 ↔ ∀ addr ∈ s.passedOver e, s.HidesAt e.pid addr addr := by
  obtain ⟨hs, rfl⟩ := h.steady
  have hk : s.options.Keeps := .inr hpage
  have hat : ∀ {a a' : Nat}, s.HidesAt e.pid a a' ↔ Written (s.hitOf e.thread) a a' :=
    hidesAt_iff e.thread hs hk hremap
  have hstack := written_stack_iff (s.hitOf e.thread) e.branches
  simp only [passedOver, hat]
  rw [← hstack, answer_sample]
  constructor
  · intro hhides
    have hbranches := hhides.branches
    simp only [hat] at hbranches
    exact hbranches
  · intro hbranches
    refine ⟨hat.2 (written_written _ e.ip), ?_, ?_⟩
    · simp only [hat]
      exact written_frames (s.hitOf e.thread) e.ip e.callchain
    · simp only [hat]
      exact hbranches

theorem reachable_twoPages : Reachable .default twoPages := .register _ _ .start

/-- A frame in the middle of the chain and the target of the last branch lie nowhere. They are the
only addresses that are left. -/
theorem hides_sample_partly_resolved :
    let e : Sample :=
      ⟨7, 7, 0x10010, [0x10020, 0x99000, 0x10030],
        [⟨0x10040, 0x11000, false⟩, ⟨0x10050, 0x99000, false⟩]⟩
    Reachable .default twoPages ∧ Options.default.remap = true ∧
      isPowerOfTwo Options.default.alignment = true ∧
      twoPages.Hides e (twoPages.sample e).answer.1 ∧
      (twoPages.sample e).answer.1 =
        ⟨7, 7, 0x10, [0x20, 0x99000, 0x30],
          [⟨0x40, 0x1000, false⟩, ⟨0x50, 0x99000, false⟩]⟩ := by
  intro e
  have hpage : isPowerOfTwo Options.default.alignment = true := isPowerOfTwo_systemPage none
  refine ⟨reachable_twoPages, rfl, hpage, ?_, by decide⟩
  refine (hides_sample_iff reachable_twoPages rfl hpage e).2 ?_
  have hleft : twoPages.passedOver e = [0x99000] := by decide
  have hnone : twoPages.hitOf e.thread 0x99000 = none := by decide
  rw [hleft, List.forall_mem_singleton]
  intro place hplace
  have hfound := (standsFor_iff e.thread reachable_twoPages.steady.1 (.inr hpage)
    rfl).1 hplace
  rw [hnone] at hfound
  cases hfound

/-- The target of the first branch lies nowhere, so the second branch is passed over. Both its ends
have a synthetic address to stand for them, and stay real. -/
theorem second_branch_not_hidden :
    let e : Sample :=
      ⟨7, 7, 0x10010, [], [⟨0x10020, 0x99000, false⟩, ⟨0x10040, 0x10050, false⟩]⟩
    Reachable .default twoPages ∧ Options.default.remap = true ∧
      isPowerOfTwo Options.default.alignment = true ∧
      twoPages.StandsFor e.pid 0x40 0x10040 ∧ twoPages.StandsFor e.pid 0x50 0x10050 ∧
      (twoPages.sample e).answer.1 =
        ⟨7, 7, 0x10, [], [⟨0x20, 0x99000, false⟩, ⟨0x10040, 0x10050, false⟩]⟩ ∧
      ¬ twoPages.Hides e (twoPages.sample e).answer.1 := by
  intro e
  have hregion : (twoPages.spaceOf 7).regionAt? 0 =
      some ⟨0x10000, 0x2000, 0, 1, 0, top - 0x2000⟩ := by decide
  have hsource : twoPages.StandsFor e.pid 0x40 0x10040 :=
    ⟨0, _, hregion, by decide, by decide, by decide⟩
  have htarget : twoPages.StandsFor e.pid 0x50 0x10050 :=
    ⟨0, _, hregion, by decide, by decide, by decide⟩
  have hshown : (twoPages.sample e).answer.1 =
      ⟨7, 7, 0x10, [], [⟨0x20, 0x99000, false⟩, ⟨0x10040, 0x10050, false⟩]⟩ := by decide
  refine ⟨reachable_twoPages, rfl, isPowerOfTwo_systemPage none, hsource, htarget, hshown, ?_⟩
  intro hhides
  have hbranches := hhides.branches
  rw [hshown] at hbranches
  obtain ⟨-, hrest⟩ := List.forall₂_cons.1 hbranches
  obtain ⟨hsecond, -⟩ := List.forall₂_cons.1 hrest
  exact absurd ((hsecond (by decide)).1 _ hsource) (by decide)

end Session
end Unslide
