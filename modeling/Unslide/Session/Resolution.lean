import Unslide.Session.Basic

/-!
# Unslide.Session.Resolution

Resolving sampled addresses: which image an address belongs to, and at which offset. In a session
that remaps, synthetic addresses take the place of those in a sample on the way. Every address
that is found in a mapping counts as a hit of it and of its image.

* `answer_resolve`: the answer for an address depends on the space of the process, the mappings on
  record and the settings alone.
-/

namespace Unslide

structure Location where
  image : Nat
  offset : Nat
  deriving DecidableEq, Repr

/-- An address that was resolved: what is to be written for it, and where it belongs. -/
structure Hit where
  address : Nat
  location : Location
  deriving DecidableEq, Repr

/-- What looking an address up can come to. -/
inductive Finding where
  | nothing
  /-- The region that holds it stands for mapping `id`, which is not on record. -/
  | unrecorded (id : Nat)
  /-- It is in mapping `id`, but its synthetic address lies elsewhere in its page. -/
  | moved (id : Nat) (m : Mapping) (place : Nat)
  | found (id : Nat) (m : Mapping) (hit : Hit)

def Finding.hit? : Finding → Option Hit
  | .found _ _ hit => some hit
  | _ => none

structure ResolvedBranch where
  source : Location
  target : Location
  predicted : Bool
  deriving DecidableEq, Repr

structure ResolvedSample where
  thread : Thread
  command : Option Nat
  ip : Option Location
  callchain : List Location
  branches : List ResolvedBranch
  /-- The address, the call chain and the branches were all resolved. -/
  complete : Bool
  deriving DecidableEq, Repr

structure ResolvedChain where
  /-- The values, replaced where they were resolved. -/
  values : List Nat
  /-- Locations up to the first address that was not resolved. -/
  entries : List Location
  complete : Bool
  deriving DecidableEq, Repr

structure ResolvedStack where
  /-- The branches, replaced up to the first address that was not resolved. -/
  stack : List Branch
  /-- All branches in front of the padding, unless one of them was not resolved. -/
  resolved : Option (List ResolvedBranch)
  deriving DecidableEq, Repr

namespace Session

/-- Count an address of `thread` that was resolved into mapping `id`. -/
def countHit (s : Session) (id : Nat) (m : Mapping) (thread : Thread) : Session :=
  { s with
    mappings := s.mappings.insert id { m with samples := m.samples + 1 }
    images := s.images.record m.image thread }

def finding (s : Session) (space : Space) (ip : Nat) : Finding :=
  match space.locate? ip with
  | none => .nothing
  | some (place, handle) =>
    match space.attribute? ip handle with
    | none => .nothing
    | some (id, offset) =>
      match s.mappings.find? id with
      | none => .unrecorded id
      | some m =>
        if s.options.remap = false then .found id m ⟨ip, m.image, offset⟩
        else if SameOffset s.checkedPage ip place then .found id m ⟨place, m.image, offset⟩
        else .moved id m place

/-- Resolve an address of a thread, in the space of its process. -/
def resolve (s : Session) (ip : Nat) (thread : Thread) : Step Session (Option Hit) :=
  let opened := s.processes.ensure thread.pid kernelPid
  let ready : Session := { s with processes := opened.state }
  match s.finding opened.answer.1 ip with
  | .nothing => ⟨ready, none, opened.notes⟩
  | .unrecorded id => ⟨ready, none, opened.notes ++ [.unknownMapping ip id]⟩
  | .moved id m place =>
    ⟨ready.countHit id m thread, none, opened.notes ++ [.addressMoved place ip]⟩
  | .found id m hit => ⟨ready.countHit id m thread, some hit, opened.notes⟩

theorem answer_resolve (s : Session) (ip : Nat) (thread : Thread) :
    (s.resolve ip thread).answer =
      (s.finding (s.processes.ensure thread.pid kernelPid).answer.1 ip).hit? := by
  simp only [resolve]
  cases s.finding (s.processes.ensure thread.pid kernelPid).answer.1 ip <;> rfl

/-- Resolve a call chain. Markers stay as they are. Frames at the address `sampled` become
`ip`, what was written for it, and have no entry of their own. -/
def chain (s : Session) (ip sampled : Nat) (thread : Thread) :
    List Nat → Step Session ResolvedChain
  | [] => ⟨s, ⟨[], [], true⟩, []⟩
  | value :: rest =>
    if isMarker value then
      (s.chain ip sampled thread rest).mapAnswer fun c => { c with values := value :: c.values }
    else if value = sampled then
      (s.chain ip sampled thread rest).mapAnswer fun c => { c with values := ip :: c.values }
    else
      let first := s.resolve value thread
      let others := (first.state.chain ip sampled thread rest).after first.notes
      match first.answer with
      | some hit =>
        others.mapAnswer fun c =>
          { c with values := hit.address :: c.values, entries := hit.location :: c.entries }
      | none =>
        others.mapAnswer fun c => ⟨value :: c.values, [], false⟩

/-- Resolve branches, up to the first address that is not resolved. -/
def branchesInto (s : Session) (thread : Thread) : List Branch → Step Session ResolvedStack
  | [] => ⟨s, ⟨[], some []⟩, []⟩
  | b :: rest =>
    let source := s.resolve b.source thread
    match source.answer with
    | none => ⟨source.state, ⟨b :: rest, none⟩, source.notes⟩
    | some sourceHit =>
      let left : Branch := { b with source := sourceHit.address }
      let target := source.state.resolve b.target thread
      match target.answer with
      | none => ⟨target.state, ⟨left :: rest, none⟩, source.notes ++ target.notes⟩
      | some targetHit =>
        let done : Branch := { left with target := targetHit.address }
        let more := target.state.branchesInto thread rest
        ⟨more.state,
          ⟨done :: more.answer.stack,
            more.answer.resolved.map
              (⟨sourceHit.location, targetHit.location, !b.mispredicted⟩ :: ·)⟩,
          source.notes ++ target.notes ++ more.notes⟩

/-- Resolve a branch stack, all or nothing. Nothing is resolved if a branch follows the padding. -/
def branches (s : Session) (thread : Thread) (stack : List Branch) : Step Session ResolvedStack :=
  let taken := stack.takeWhile (fun b => !b.isNull)
  let padding := stack.dropWhile (fun b => !b.isNull)
  match padding.find? (fun b => !b.isNull) with
  | some stray => ⟨s, ⟨stack, none⟩, [.strayBranch stray.source stray.target]⟩
  | none =>
    (s.branchesInto thread taken).mapAnswer fun r => { r with stack := r.stack ++ padding }

/-- Resolve a sample. Answers the sample, remapped if the session remaps, and what was found. -/
def sample (s : Session) (e : Sample) : Step Session (Sample × ResolvedSample) :=
  let own := s.resolve e.ip e.thread
  let ip :=
    match own.answer with
    | some hit => hit.address
    | none => e.ip
  let frames := own.state.chain ip e.ip e.thread e.callchain
  let jumps := frames.state.branches e.thread e.branches
  let remapped : Sample :=
    { e with ip := ip, callchain := frames.answer.values, branches := jumps.answer.stack }
  let resolved : ResolvedSample :=
    { thread := e.thread
      command := s.commands.idOf? e.thread
      ip := own.answer.map (·.location)
      callchain := frames.answer.entries
      branches := jumps.answer.resolved.getD []
      complete := own.answer.isSome && frames.answer.complete && jumps.answer.resolved.isSome }
  ⟨jumps.state, (remapped, resolved), own.notes ++ frames.notes ++ jumps.notes⟩

end Session
end Unslide
