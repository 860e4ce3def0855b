import Mathlib.Logic.Function.Basic
import Unslide.Commands
import Unslide.Event
import Unslide.Proofs.Numbering

/-!
# Unslide.Proofs.Commands

The table of commands against a plain map from threads to names (`Carriers`). Names go through
numbers, and what a thread takes over from another one is a number; but a number keeps its name, so a
thread carries the name that the map says.

* `nameOf?_of_grown`, `nameOf?_assign`: a number and its name.
* `numbering_performAll`: the numbers that a table answers, whatever calls it has been through.
* `Tells.assign`, `Tells.inherit`: the table tells the map, before a change and after it.
* `Tells.follow`: so it does before a record and after it.
-/

namespace Unslide

/-- The names of the commands that threads carry. -/
abbrev Carriers := Thread → Option String

namespace Carriers

def nobody : Carriers := fun _ => none

/-- A thread takes a command, or a forked one that of its parent, if the parent has one. -/
def follow (m : Carriers) : Event → Carriers
  | .comm e => Function.update m e.thread (some e.comm)
  | .fork e =>
    if e.parent = e.child then m
    else Function.update m e.child ((m e.parent).or (m e.child))
  | .mmap _ => m
  | .exit _ => m
  | .sample _ => m

def ofCapture (es : List Event) : Carriers := es.foldl follow nobody

theorem ofCapture_concat (es : List Event) (e : Event) :
    ofCapture (es ++ [e]) = (ofCapture es).follow e := by
  simp only [ofCapture, List.foldl_append, List.foldl_cons, List.foldl_nil]

end Carriers

namespace Commands

variable {t u : Commands} {thread : Thread} {id : Nat} {name : String}

/-! ## Numbers of names -/

theorem names_prefix_intern (t : Commands) (name : String) :
    t.names <+: (t.intern name).1.names := by
  simp only [intern]
  split
  · exact List.prefix_refl _
  · exact List.prefix_append _ _

theorem names_inherit (t : Commands) (child parent : Thread) :
    (t.inherit child parent).1.names = t.names := by
  simp only [inherit]
  split <;> rfl

theorem nameOf?_of_grown (h : t.names <+: u.names) (ht : t.nameOf? id = some name) :
    u.nameOf? id = some name :=
  getElem?_of_grown h ht

theorem nameOf?_assign (t : Commands) (thread : Thread) (name : String) :
    (t.assign thread name).1.nameOf? (t.assign thread name).2 = some name := by
  simp only [assign, intern, nameOf?, bind]
  split
  · rename_i id hfound
    exact (t.indexed name id).1 hfound
  · exact List.getElem?_concat_length

/-- A thread that carries a command after it was to take over another one's carried it before, or
the other one did. -/
theorem idOf?_of_inherit {child parent : Thread}
    (h : (t.inherit child parent).1.idOf? thread = some id) :
    ∃ carrier, t.idOf? carrier = some id := by
  simp only [inherit] at h
  split at h
  · rename_i own hown
    by_cases heq : thread = child
    · rw [heq, idOf?_bind_self] at h
      exact ⟨parent, hown.trans h⟩
    · rw [idOf?_bind_of_ne _ _ heq] at h
      exact ⟨thread, h⟩
  · exact ⟨thread, h⟩

/-! ## Sequences of calls -/

inductive Call where
  | intern (name : String)
  | assign (thread : Thread) (name : String)
  | inherit (child parent : Thread)

def perform (t : Commands) : Call → Commands
  | .intern name => (t.intern name).1
  | .assign thread name => (t.assign thread name).1
  | .inherit child parent => (t.inherit child parent).1

def performAll (t : Commands) (calls : List Call) : Commands := calls.foldl perform t

/-- The name that a call asks for, with the number that it is answered. -/
def answer (t : Commands) : Call → List (String × Nat)
  | .intern name => [(name, (t.intern name).2)]
  | .assign thread name => [(name, (t.assign thread name).2)]
  | .inherit _ _ => []

/-- The names that calls ask for in order, with the numbers that they are answered. -/
def answers (t : Commands) (calls : List Call) : List (String × Nat) := collect perform answer t calls

/-- The calls that a record makes. -/
def callsOf : Event → List Call
  | .comm e => [.assign e.thread e.comm]
  | .fork e => if e.parent = e.child then [] else [.inherit e.child e.parent]
  | .mmap _ => []
  | .exit _ => []
  | .sample _ => []

theorem performAll_append (t : Commands) (calls more : List Call) :
    t.performAll (calls ++ more) = (t.performAll calls).performAll more := List.foldl_append

variable {before : List (String × Nat)}

theorem numbering_intern (h : Numbering t.names before) (name : String) :
    Numbering (t.intern name).1.names (before ++ [(name, (t.intern name).2)]) := by
  simp only [intern]
  split
  · rename_i id hfound
    exact h.known ((t.indexed name id).1 hfound)
  · rename_i hnone
    exact h.fresh (t.indexed.lookup_eq_none_iff.1 hnone)

theorem numbering_perform (h : Numbering t.names before) (c : Call) :
    Numbering (t.perform c).names (before ++ t.answer c) := by
  cases c with
  | intern name => exact numbering_intern h name
  | assign thread name => exact numbering_intern h name
  | inherit child parent =>
    simp only [perform, answer, names_inherit, List.append_nil]
    exact h

/-- Whatever calls a table has been through, its names are those that were asked for, and the numbers
that were answered are theirs. -/
theorem numbering_performAll (h : Numbering t.names before) (calls : List Call) :
    Numbering (t.performAll calls).names (before ++ t.answers calls) :=
  h.of_calls (fun c h => numbering_perform h c) calls

/-! ## Threads and names -/

theorem commandOf?_eq (t : Commands) (thread : Thread) :
    t.commandOf? thread = (t.idOf? thread).bind t.nameOf? := by
  simp only [commandOf?]
  cases t.idOf? thread <;> rfl

/-- Every thread carries the name that the map says, and what it carries has a name. -/
structure Tells (t : Commands) (m : Carriers) : Prop where
  command : ∀ thread, t.commandOf? thread = m thread
  named : ∀ thread id, t.idOf? thread = some id → ∃ name, t.nameOf? id = some name

namespace Tells

variable {m : Carriers}

theorem empty : Commands.empty.Tells .nobody := ⟨fun _ => rfl, by simp [Commands.empty, idOf?]⟩

/-- What a thread carries keeps its name when the table grows. -/
theorem name_of_grown (h : t.Tells m) (hgrown : t.names <+: u.names) (thread : Thread) :
    (t.idOf? thread).bind u.nameOf? = m thread := by
  rw [← h.command, commandOf?_eq]
  cases hid : t.idOf? thread with
  | none => rfl
  | some id =>
    obtain ⟨name, hname⟩ := h.named thread id hid
    rw [Option.bind_some, Option.bind_some, hname, nameOf?_of_grown hgrown hname]

theorem assign (h : t.Tells m) (thread : Thread) (name : String) :
    (t.assign thread name).1.Tells (Function.update m thread (some name)) where
  command other := by
    by_cases heq : other = thread
    · subst heq
      rw [Function.update_self, commandOf?_eq, idOf?_assign_self, Option.bind_some, nameOf?_assign]
    · rw [Function.update_of_ne heq, commandOf?_eq, idOf?_assign_of_ne t name heq]
      exact h.name_of_grown (names_prefix_intern t name) other
  named other id hid := by
    by_cases heq : other = thread
    · subst heq
      rw [idOf?_assign_self, Option.some.injEq] at hid
      rw [← hid]
      exact ⟨name, nameOf?_assign t other name⟩
    · rw [idOf?_assign_of_ne t name heq] at hid
      obtain ⟨known, hknown⟩ := h.named other id hid
      exact ⟨known, nameOf?_of_grown (names_prefix_intern t name) hknown⟩

theorem inherit (h : t.Tells m) (child parent : Thread) :
    (t.inherit child parent).1.Tells
      (Function.update m child ((m parent).or (m child))) where
  command other := by
    have hparent := h.command parent
    rw [commandOf?_eq] at hparent
    simp only [Commands.inherit]
    cases hid : t.idOf? parent with
    | none =>
      rw [hid, Option.bind_none] at hparent
      rw [← hparent, Option.none_or, Function.update_eq_self]
      exact h.command other
    | some id =>
      obtain ⟨name, hname⟩ := h.named parent id hid
      rw [hid, Option.bind_some, hname] at hparent
      rw [← hparent, Option.some_or, commandOf?_eq]
      by_cases heq : other = child
      · subst heq
        rw [Function.update_self, idOf?_bind_self, Option.bind_some]
        exact hname
      · rw [Function.update_of_ne heq, idOf?_bind_of_ne t id heq, ← h.command other, commandOf?_eq]
        rfl
  named other id hid := by
    obtain ⟨carrier, hcarrier⟩ := idOf?_of_inherit hid
    obtain ⟨name, hname⟩ := h.named carrier id hcarrier
    refine ⟨name, nameOf?_of_grown ?_ hname⟩
    rw [names_inherit]

/-- The calls that a record makes of the table do what it does to the map. -/
theorem follow (h : t.Tells m) (e : Event) : (t.performAll (callsOf e)).Tells (m.follow e) := by
  cases e with
  | mmap e => exact h
  | fork e =>
    simp only [callsOf, Carriers.follow]
    split
    · exact h
    · exact h.inherit e.child e.parent
  | exit e => exact h
  | comm e => exact h.assign e.thread e.comm
  | sample e => exact h

end Tells
end Commands
end Unslide
