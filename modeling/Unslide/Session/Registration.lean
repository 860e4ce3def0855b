import Unslide.Session.Basic

/-!
# Unslide.Session.Registration

Mapping, fork and command records: what they change in a session. A session
that remaps also moves the record of a mapping to its synthetic start.

The very first record of a capture is the kernel's mapping. It can start below the kernel's text,
and its offset is the address that the text was loaded at; so it is taken to start there, and its
offset is cleared.

* `geometry_of_ne_zero`: all other mappings are registered as recorded.
-/

namespace Unslide

/-- The interval of a mapping and the file offset of its start. -/
structure Geometry where
  start : Nat
  len : Nat
  pgoff : Nat
  deriving DecidableEq, Repr

/-- The kernel's text starts inside the mapping, behind its first address. -/
def Mmap.StartsEarly (e : Mmap) : Prop := e.start < e.pgoff ∧ e.pgoff - e.start < e.len

instance (e : Mmap) : Decidable e.StartsEarly := inferInstanceAs (Decidable (_ ∧ _))

/-- The geometry under which a mapping is registered. -/
def Mmap.geometry (e : Mmap) (id : Nat) : Geometry :=
  if id = 0 then
    if e.StartsEarly then ⟨e.pgoff, e.len - (e.pgoff - e.start), 0⟩ else ⟨e.start, e.len, 0⟩
  else ⟨e.start, e.len, e.pgoff⟩

theorem Mmap.geometry_of_ne_zero (e : Mmap) {id : Nat} (h : id ≠ 0) :
    e.geometry id = ⟨e.start, e.len, e.pgoff⟩ := if_neg h

def Mmap.geometryNotes (e : Mmap) (id : Nat) : List Note :=
  if id = 0 ∧ e.StartsEarly then [.kernelTrimmed e.start e.len e.pgoff] else []

def Geometry.request (g : Geometry) (id : Nat) : Request := ⟨g.start, g.len, id, g.pgoff⟩

namespace Session

def remember (s : Session) (id : Nat) (m : Mapping) : Session :=
  { s with mappings := s.mappings.insert id m }

/-- Register a mapping under a number. It replaces what it meets in the space of its process.
Answers the record, with its synthetic start if the session remaps. -/
def register (s : Session) (e : Mmap) (id : Nat) : Step Session (Mmap × Except Failure Unit) :=
  let (images, image) := s.images.intern e.filename e.kernel
  let g := e.geometry id
  let found := s.processes.ensure e.pid kernelPid
  let placed := found.answer.1.reserve (g.request id) true
  let notes := e.geometryNotes id ++ found.notes ++ placed.notes
  let mapped : Session :=
    { s with images := images, processes := found.state.put e.pid placed.state }
  let known := mapped.remember id ⟨e.pid, image, g.start, g.len, g.pgoff, 0⟩
  match placed.answer with
  | .error refusal =>
    ⟨mapped, (e, .error (.mappingRefused id e.pid e.filename refusal)),
      notes ++ .mappingRefused id e.filename g.start g.len e.pid refusal ::
        placed.state.layoutNotes⟩
  | .ok _ =>
    if s.options.remap = false then ⟨known, (e, .ok ()), notes⟩
    else
      match placed.state.locate? g.start with
      | none => ⟨mapped, (e, .error (.startLost e.pid g.start)), notes⟩
      | some (place, _) =>
        if SameOffset s.checkedPage g.start place then
          ⟨known, ({ e with start := place, len := g.len, pgoff := g.pgoff }, .ok ()), notes⟩
        else
          ⟨mapped, (e, .error (.startMoved g.start place)),
            notes ++ [.startMoved place g.start]⟩

/-- Apply a fork. The child takes over the parent's command, and, if it is a new process, a copy of
its address space. -/
def fork (s : Session) (e : Lineage) : Step Session Unit :=
  let commands :=
    if e.parent = e.child then s.commands else (s.commands.inherit e.child e.parent).1
  if e.pid = e.ppid then ⟨{ s with commands := commands }, (), []⟩
  else
    let found := s.processes.ensure e.pid e.ppid
    ⟨{ s with commands := commands, processes := found.state }, (),
      found.notes ++ if found.answer.2 then [] else [.forkIntoExisting e.pid]⟩

def nameThread (s : Session) (e : Naming) : Step Session Unit :=
  let found := s.processes.ensure e.pid kernelPid
  ⟨{ s with processes := found.state, commands := (s.commands.assign e.thread e.comm).1 }, (),
    found.notes⟩

end Session
end Unslide
