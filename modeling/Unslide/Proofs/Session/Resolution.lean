import Unslide.Proofs.Processes
import Unslide.Session.Registration
import Unslide.Session.Resolution

/-!
# Unslide.Proofs.Session.Resolution

The resolution of a sample, taken apart. Looking an address up changes counters, but no later
answer: all addresses of a sample are answered as if each were looked up alone (`hitOf`). So the
answer of every walk is a function of those answers, and the state that it leaves is that of
looking up a list of addresses.

* `answer_chain`, `answer_branches`, `answer_sample`: the answers.
* `state_chain`, `state_branches`, `state_sample`: the addresses that are looked up.
-/

namespace Unslide
namespace Session

/-- What an address of a thread resolves to. -/
def hitOf (s : Session) (thread : Thread) (addr : Nat) : Option Hit :=
  (s.resolve addr thread).answer

def resolveAll (s : Session) (thread : Thread) (addrs : List Nat) : Session :=
  addrs.foldl (fun s addr => (s.resolve addr thread).state) s

/-- `t` is `s` after addresses of a process were looked up. -/
structure Opened (pid : Nat) (s t : Session) : Prop where
  options : t.options = s.options
  commands : t.commands = s.commands
  processes : t.processes = (s.processes.ensure pid kernelPid).state
  images : ∀ id, (t.mappings.find? id).map Mapping.image = (s.mappings.find? id).map Mapping.image

variable {s t u : Session} {thread : Thread} {pid addr : Nat}

theorem find?_countHit {id : Nat} {m : Mapping} (thread : Thread) (h : s.mappings.find? id = some m)
    (other : Nat) : ((s.countHit id m thread).mappings.find? other).map Mapping.image =
      (s.mappings.find? other).map Mapping.image := by
  simp only [countHit]
  by_cases ho : other = id
  · subst ho
    rw [Index.find?_insert_self, h]
    rfl
  · rw [Index.find?_insert_of_ne _ _ ho]

theorem find?_of_finding {space : Space} {id : Nat} {m : Mapping}
    (h : (∃ hit, s.finding space addr = .found id m hit) ∨
      ∃ place, s.finding space addr = .moved id m place) : s.mappings.find? id = some m := by
  revert h
  simp only [finding]
  split
  · simp
  · split
    · simp
    · split
      · simp
      · rename_i m' hm
        split
        · rintro (⟨hit, h⟩ | ⟨place, h⟩) <;> cases h
          exact hm
        · split
          · rintro (⟨hit, h⟩ | ⟨place, h⟩) <;> cases h
            exact hm
          · rintro (⟨hit, h⟩ | ⟨place, h⟩) <;> cases h
            exact hm

theorem opened_resolve (s : Session) (addr : Nat) (thread : Thread) :
    Opened thread.pid s (s.resolve addr thread).state := by
  simp only [resolve]
  cases h : s.finding (s.processes.ensure thread.pid kernelPid).answer.1 addr with
  | nothing => exact ⟨rfl, rfl, rfl, fun _ => rfl⟩
  | unrecorded id => exact ⟨rfl, rfl, rfl, fun _ => rfl⟩
  | moved id m place =>
    have hm := find?_of_finding (.inr ⟨place, h⟩)
    exact ⟨rfl, rfl, rfl, find?_countHit thread hm⟩
  | found id m hit =>
    have hm := find?_of_finding (.inl ⟨hit, h⟩)
    exact ⟨rfl, rfl, rfl, find?_countHit thread hm⟩

theorem Opened.trans (hst : Opened pid s t) (htu : Opened pid t u) : Opened pid s u where
  options := htu.options.trans hst.options
  commands := htu.commands.trans hst.commands
  processes := by
    rw [htu.processes, hst.processes, Processes.ensure_ensure]
  images id := (htu.images id).trans (hst.images id)

/-- Of the mapping table only the images reach an answer. -/
theorem hit?_finding_congr (ho : t.options = s.options)
    (hp : t.processes.page = s.processes.page)
    (hm : ∀ id, (t.mappings.find? id).map Mapping.image = (s.mappings.find? id).map Mapping.image)
    (space : Space) (addr : Nat) : (t.finding space addr).hit? = (s.finding space addr).hit? := by
  have hchecked : t.checkedPage = s.checkedPage := by simp only [checkedPage, hp]
  simp only [finding]
  split
  · rfl
  · split
    · rfl
    · rename_i id offset _
      have hid := hm id
      cases hs : s.mappings.find? id with
      | none =>
        rw [hs, Option.map_none, Option.map_eq_none_iff] at hid
        simp only [hid, Finding.hit?]
      | some m =>
        rw [hs, Option.map_some, Option.map_eq_some_iff] at hid
        obtain ⟨m', hm', himage⟩ := hid
        simp only [hm', ho, hchecked, himage]
        split
        · rfl
        · split <;> rfl

/-- Addresses that were looked up before leave the answers as they are. -/
theorem Opened.hitOf_eq (h : Opened thread.pid s t) : t.hitOf thread = s.hitOf thread := by
  funext addr
  have hpage : t.processes.page = s.processes.page := by rw [h.processes, Processes.page_ensure]
  rw [hitOf, hitOf, answer_resolve, answer_resolve, h.processes, Processes.ensure_ensure]
  exact hit?_finding_congr h.options hpage h.images _ _

theorem hitOf_resolve (s : Session) (addr : Nat) (thread : Thread) :
    (s.resolve addr thread).state.hitOf thread = s.hitOf thread :=
  (opened_resolve s addr thread).hitOf_eq

theorem hitOf_resolveAll (s : Session) (thread : Thread) (addrs : List Nat) :
    (s.resolveAll thread addrs).hitOf thread = s.hitOf thread := by
  induction addrs generalizing s with
  | nil => rfl
  | cons addr rest ih =>
    rw [← hitOf_resolve s addr thread]
    exact ih _

theorem resolveAll_append (s : Session) (thread : Thread) (xs ys : List Nat) :
    s.resolveAll thread (xs ++ ys) = (s.resolveAll thread xs).resolveAll thread ys :=
  List.foldl_append

theorem opened_resolveAll_cons (s : Session) (thread : Thread) (addr : Nat) (rest : List Nat) :
    Opened thread.pid s (s.resolveAll thread (addr :: rest)) := by
  induction rest generalizing s addr with
  | nil => exact opened_resolve s addr thread
  | cons next rest ih => exact (opened_resolve s addr thread).trans (ih _ next)

/-! ## Call chains -/

/-- The frames of a call chain that are looked up: neither markers nor the sampled address. -/
def lookedUp (sampled : Nat) (values : List Nat) : List Nat :=
  values.filter fun value => !isMarker value && value != sampled

def written (look : Nat → Option Hit) (addr : Nat) : Nat :=
  match look addr with
  | some hit => hit.address
  | none => addr

def rewritten (look : Nat → Option Hit) (ip sampled value : Nat) : Nat :=
  if isMarker value then value else if value = sampled then ip else written look value

/-- The locations in front of the first address that was not resolved. -/
def located : List (Option Location) → List Location
  | some l :: rest => l :: located rest
  | _ => []

def frames (look : Nat → Option Hit) (ip sampled : Nat) (values : List Nat) : ResolvedChain where
  values := values.map (rewritten look ip sampled)
  entries := located ((lookedUp sampled values).map fun value => (look value).map Hit.location)
  complete := (lookedUp sampled values).all fun value => (look value).isSome

theorem answer_chain (s : Session) (ip sampled : Nat) (thread : Thread) (values : List Nat) :
    (s.chain ip sampled thread values).answer = frames (s.hitOf thread) ip sampled values := by
  induction values generalizing s with
  | nil => rfl
  | cons value rest ih =>
    simp only [chain]
    split
    · rename_i hmarker
      simp [ih, frames, rewritten, lookedUp, hmarker]
    · rename_i hmarker
      split
      · rename_i heq
        subst heq
        simp [ih, frames, rewritten, lookedUp, hmarker]
      · rename_i hne
        have hlook : s.hitOf thread value = (s.resolve value thread).answer := rfl
        split
        · rename_i hit hhit
          rw [hhit] at hlook
          simp [ih, hitOf_resolve, frames, rewritten, written, lookedUp, located, hmarker, hne,
            hlook]
        · rename_i hnone
          rw [hnone] at hlook
          simp [ih, hitOf_resolve, frames, rewritten, written, lookedUp, located, hmarker, hne,
            hlook]

theorem state_chain (s : Session) (ip sampled : Nat) (thread : Thread) (values : List Nat) :
    (s.chain ip sampled thread values).state = s.resolveAll thread (lookedUp sampled values) := by
  induction values generalizing s with
  | nil => rfl
  | cons value rest ih =>
    simp only [chain]
    split
    · rename_i hmarker
      simp [ih, lookedUp, hmarker]
    · rename_i hmarker
      split
      · rename_i heq
        simp [ih, lookedUp, heq]
      · rename_i hne
        have hcons : lookedUp sampled (value :: rest) = value :: lookedUp sampled rest := by
          simp [lookedUp, hmarker, hne]
        rw [hcons]
        split <;> exact ih _

/-! ## Branch stacks -/

/-- Branches resolved by a look-up, up to the first address that is not found. -/
def jumps (look : Nat → Option Hit) : List Branch → ResolvedStack
  | [] => ⟨[], some []⟩
  | b :: rest =>
    match look b.source with
    | none => ⟨b :: rest, none⟩
    | some source =>
      match look b.target with
      | none => ⟨{ b with source := source.address } :: rest, none⟩
      | some target =>
        ⟨⟨source.address, target.address, b.mispredicted⟩ :: (jumps look rest).stack,
          (jumps look rest).resolved.map
            (⟨source.location, target.location, !b.mispredicted⟩ :: ·)⟩

def jumpsLookedUp (look : Nat → Option Hit) : List Branch → List Nat
  | [] => []
  | b :: rest =>
    if (look b.source).isNone then [b.source]
    else if (look b.target).isNone then [b.source, b.target]
    else b.source :: b.target :: jumpsLookedUp look rest

theorem hitOf_eq (s : Session) (addr : Nat) (thread : Thread) :
    s.hitOf thread addr = (s.resolve addr thread).answer := rfl

theorem answer_branchesInto (s : Session) (thread : Thread) (bs : List Branch) :
    (s.branchesInto thread bs).answer = jumps (s.hitOf thread) bs := by
  induction bs generalizing s with
  | nil => rfl
  | cons b rest ih =>
    have htarget := hitOf_eq (s.resolve b.source thread).state b.target thread
    rw [hitOf_resolve] at htarget
    simp only [branchesInto, jumps, hitOf_eq s b.source, htarget]
    cases (s.resolve b.source thread).answer with
    | none => rfl
    | some source =>
      cases ((s.resolve b.source thread).state.resolve b.target thread).answer with
      | none => rfl
      | some target => simp only [ih, hitOf_resolve]

theorem state_branchesInto (s : Session) (thread : Thread) (bs : List Branch) :
    (s.branchesInto thread bs).state =
      s.resolveAll thread (jumpsLookedUp (s.hitOf thread) bs) := by
  induction bs generalizing s with
  | nil => rfl
  | cons b rest ih =>
    have htarget := hitOf_eq (s.resolve b.source thread).state b.target thread
    rw [hitOf_resolve] at htarget
    simp only [branchesInto, jumpsLookedUp, hitOf_eq s b.source, htarget]
    cases (s.resolve b.source thread).answer with
    | none => rfl
    | some source =>
      cases ((s.resolve b.source thread).state.resolve b.target thread).answer with
      | none => rfl
      | some target =>
        simp only [ih, hitOf_resolve]
        rfl

def stack (look : Nat → Option Hit) (bs : List Branch) : ResolvedStack :=
  let taken := bs.takeWhile (fun b => !b.isNull)
  let padding := bs.dropWhile (fun b => !b.isNull)
  match padding.find? (fun b => !b.isNull) with
  | some _ => ⟨bs, none⟩
  | none => { jumps look taken with stack := (jumps look taken).stack ++ padding }

def stackLookedUp (look : Nat → Option Hit) (bs : List Branch) : List Nat :=
  match (bs.dropWhile (fun b => !b.isNull)).find? (fun b => !b.isNull) with
  | some _ => []
  | none => jumpsLookedUp look (bs.takeWhile (fun b => !b.isNull))

theorem answer_branches (s : Session) (thread : Thread) (bs : List Branch) :
    (s.branches thread bs).answer = stack (s.hitOf thread) bs := by
  simp only [branches, stack]
  cases (bs.dropWhile fun b => !b.isNull).find? fun b => !b.isNull with
  | some stray => rfl
  | none => simp only [Step.mapAnswer_answer, answer_branchesInto]

theorem state_branches (s : Session) (thread : Thread) (bs : List Branch) :
    (s.branches thread bs).state = s.resolveAll thread (stackLookedUp (s.hitOf thread) bs) := by
  simp only [branches, stackLookedUp]
  cases (bs.dropWhile fun b => !b.isNull).find? fun b => !b.isNull with
  | some stray => rfl
  | none => simp only [Step.mapAnswer_state, state_branchesInto]

theorem isSome_of_jumps {look : Nat → Option Hit} {bs : List Branch}
    (h : (jumps look bs).resolved.isSome = true) :
    ∀ b ∈ bs, (look b.source).isSome = true ∧ (look b.target).isSome = true := by
  induction bs with
  | nil => simp
  | cons b rest ih =>
    simp only [jumps] at h
    cases hs : look b.source with
    | none =>
      rw [hs] at h
      cases h
    | some source =>
      cases ht : look b.target with
      | none =>
        rw [hs, ht] at h
        cases h
      | some target =>
        rw [hs, ht] at h
        simp only [Option.isSome_map] at h
        intro c hc
        rcases List.mem_cons.1 hc with rfl | hc
        · simp [hs, ht]
        · exact ih h c hc

/-- A stack that is resolved has no branch behind its padding. -/
theorem stray_of_stack {look : Nat → Option Hit} {bs : List Branch}
    (h : (stack look bs).resolved.isSome = true) :
    (bs.dropWhile fun b => !b.isNull).find? (fun b => !b.isNull) = none ∧
      (jumps look (bs.takeWhile fun b => !b.isNull)).resolved.isSome = true := by
  simp only [stack] at h
  split at h
  · cases h
  · rename_i hnone
    exact ⟨hnone, h⟩

theorem isSome_of_stack {look : Nat → Option Hit} {bs : List Branch}
    (h : (stack look bs).resolved.isSome = true) :
    ∀ b ∈ bs, b.isNull = false →
      (look b.source).isSome = true ∧ (look b.target).isSome = true := by
  obtain ⟨hstray, hjumps⟩ := stray_of_stack h
  intro b hb hnull
  rw [← List.takeWhile_append_dropWhile (p := fun b : Branch => !b.isNull) (l := bs),
    List.mem_append] at hb
  rcases hb with hb | hb
  · exact isSome_of_jumps hjumps b hb
  · have hnot := List.find?_eq_none.1 hstray b hb
    rw [hnull] at hnot
    exact absurd rfl hnot

/-! ## Samples -/

/-- A sample resolved by a look-up: the rewritten sample, and what was found. -/
def resolution (look : Nat → Option Hit) (command : Option Nat) (e : Sample) :
    Sample × ResolvedSample :=
  let found := frames look (written look e.ip) e.ip e.callchain
  let jumped := stack look e.branches
  ({ e with ip := written look e.ip, callchain := found.values, branches := jumped.stack },
    { thread := e.thread
      command := command
      ip := (look e.ip).map Hit.location
      callchain := found.entries
      branches := jumped.resolved.getD []
      complete := (look e.ip).isSome && found.complete && jumped.resolved.isSome })

def sampleLookedUp (look : Nat → Option Hit) (e : Sample) : List Nat :=
  e.ip :: (lookedUp e.ip e.callchain ++ stackLookedUp look e.branches)

theorem answer_sample (s : Session) (e : Sample) :
    (s.sample e).answer = resolution (s.hitOf e.thread) (s.commands.idOf? e.thread) e := by
  simp only [sample, answer_chain, answer_branches, state_chain, hitOf_resolveAll, hitOf_resolve]
  rfl

theorem state_sample (s : Session) (e : Sample) :
    (s.sample e).state = s.resolveAll e.thread (sampleLookedUp (s.hitOf e.thread) e) := by
  simp only [sample, state_branches, state_chain, hitOf_resolveAll, hitOf_resolve, sampleLookedUp]
  rw [← resolveAll_append]
  rfl

/-- A sample always looks an address up, its own. -/
theorem opened_sample (s : Session) (e : Sample) : Opened e.pid s (s.sample e).state := by
  rw [state_sample]
  exact opened_resolveAll_cons s e.thread e.ip _

/-- One file is mapped into a process, at two pages from `0x10000` on. -/
def twoPages : Session :=
  ((Session.start .default).register ⟨7, 7, 0x10000, 0x2000, 0, "a.so", false⟩ 1).state

end Session
end Unslide
