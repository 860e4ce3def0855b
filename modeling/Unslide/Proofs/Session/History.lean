import Unslide.Proofs.Provenance
import Unslide.Proofs.Session.Hiding

/-!
# Unslide.Proofs.Session.History

The calls that a session has been through, as a list. A number that no mapping was registered under
is nowhere: no mapping is on record under it, and no region of any process bears it.

* `reachable_performAll`: whatever calls are made, a session comes to a state that it can come to.
* `perform_cases`: the calls that register no mapping.
* `unused_performAll`: a number that was not used.
-/

namespace Unslide
namespace Session

/-- One thing that a session is asked for. -/
inductive Call where
  | register (e : Mmap) (id : Nat)
  | fork (e : Lineage)
  | nameThread (e : Naming)
  | resolve (addr : Nat) (thread : Thread)
  | chain (ip sampled : Nat) (thread : Thread) (values : List Nat)
  | branches (thread : Thread) (bs : List Branch)
  | sample (e : Sample)

/-- The number that a call registers a mapping under. -/
def Call.number? : Call → Option Nat
  | .register _ id => some id
  | _ => none

/-- The numbers that mappings were registered under, granted or not. -/
def Call.numbers (calls : List Call) : List Nat := calls.filterMap Call.number?

def perform (s : Session) : Call → Session
  | .register e id => (s.register e id).state
  | .fork e => (s.fork e).state
  | .nameThread e => (s.nameThread e).state
  | .resolve addr thread => (s.resolve addr thread).state
  | .chain ip sampled thread values => (s.chain ip sampled thread values).state
  | .branches thread bs => (s.branches thread bs).state
  | .sample e => (s.sample e).state

def performAll (s : Session) (calls : List Call) : Session := calls.foldl perform s

/-- No mapping is on record under the number, and no region bears it. -/
structure Unused (s : Session) (id : Nat) : Prop where
  record : s.mappings.find? id = none
  regions : s.Regions fun b => b.id ≠ id

variable {s t : Session} {o : Options} {id : Nat}

/-! ## Lists of calls -/

theorem reachable_perform (h : Reachable o s) (c : Call) : Reachable o (s.perform c) := by
  cases c with
  | register e id => exact h.register e id
  | fork e => exact h.fork e
  | nameThread e => exact h.nameThread e
  | resolve addr thread => exact h.resolve addr thread
  | chain ip sampled thread values => exact h.chain ip sampled thread values
  | branches thread bs => exact h.branches thread bs
  | sample e => exact h.sample e

theorem reachable_performAll (h : Reachable o s) (calls : List Call) :
    Reachable o (s.performAll calls) := by
  induction calls generalizing s with
  | nil => exact h
  | cons c rest ih => exact ih (reachable_perform h c)

theorem performAll_concat (s : Session) (calls : List Call) (c : Call) :
    s.performAll (calls ++ [c]) = (s.performAll calls).perform c := by
  simp only [performAll, List.foldl_append, List.foldl_cons, List.foldl_nil]

/-- What a call that registers no mapping can do: it applies a fork or a name, or looks addresses
up. -/
theorem perform_cases {c : Call} (h : c.number? = none) (s : Session) :
    (∃ e, s.perform c = (s.fork e).state) ∨ (∃ e, s.perform c = (s.nameThread e).state) ∨
      ∃ thread addrs, s.perform c = s.resolveAll thread addrs := by
  cases c with
  | register e id => cases h
  | fork e => exact .inl ⟨e, rfl⟩
  | nameThread e => exact .inr (.inl ⟨e, rfl⟩)
  | resolve addr thread => exact .inr (.inr ⟨thread, [addr], rfl⟩)
  | chain ip sampled thread values => exact .inr (.inr ⟨thread, _, state_chain s _ _ _ _⟩)
  | branches thread bs => exact .inr (.inr ⟨thread, _, state_branches s _ _⟩)
  | sample e => exact .inr (.inr ⟨e.thread, _, state_sample s e⟩)

/-! ## Numbers -/

namespace Unused

theorem start (o : Options) (id : Nat) : (Session.start o).Unused id := ⟨rfl, .start o _⟩

theorem of_remembers (h : s.Unused id) (hst : s.Remembers t)
    (hregions : t.Regions fun b => b.id ≠ id) : t.Unused id :=
  ⟨hst.find?_none h.record, hregions⟩

theorem register (h : s.Unused id) (hs : s.Steady) (e : Mmap) {other : Nat} (hne : other ≠ id) :
    (s.register e other).state.Unused id := by
  have hregions : (s.mapped e other).Regions fun b => b.id ≠ id := by
    refine h.regions.mapped hs ?_ fun _ _ => hne
    intro old b hold hpart
    rw [hpart.id]
    exact hold
  rcases state_register s e other with heq | heq <;> rw [heq]
  · exact ⟨h.record, hregions⟩
  · exact ⟨(Index.find?_insert_of_ne _ _ hne.symm).trans h.record, hregions⟩

theorem perform (h : s.Unused id) (hs : s.Steady) {c : Call} (hc : c.number? ≠ some id) :
    (s.perform c).Unused id := by
  cases hnumber : c.number? with
  | some other =>
    cases c with
    | register e id' =>
      refine h.register hs e ?_
      rintro rfl
      exact hc rfl
    | _ => cases hnumber
  | none =>
    obtain ⟨f, heq⟩ | ⟨f, heq⟩ | ⟨thread, addrs, heq⟩ := perform_cases hnumber s <;> rw [heq]
    · exact h.of_remembers (remembers_fork s f) (h.regions.fork f)
    · exact h.of_remembers (remembers_nameThread s f) (h.regions.nameThread f)
    · exact h.of_remembers (remembers_resolveAll s thread addrs) (h.regions.resolveAll thread addrs)

end Unused

/-- **A number is nowhere before it is used.** -/
theorem unused_performAll (o : Options) {calls : List Call} (h : id ∉ Call.numbers calls) :
    ((start o).performAll calls).Unused id := by
  induction calls using List.reverseRecOn with
  | nil => exact .start o id
  | append_singleton calls c ih =>
    simp only [Call.numbers, List.filterMap_append, List.mem_append, not_or] at h
    have hc : c.number? ≠ some id := by
      intro hc
      simp [hc] at h
    rw [performAll_concat]
    exact (ih h.1).perform (reachable_performAll .start calls).steady.1 hc

end Session
end Unslide
