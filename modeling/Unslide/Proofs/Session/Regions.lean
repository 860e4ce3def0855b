import Unslide.Proofs.Session.Steady

/-!
# Unslide.Proofs.Session.Regions

What holds of all regions of all processes. A process that is met for the first time takes over the
regions of another one, and a look-up changes none. Only a mapping makes regions: its own, and the
parts of those that it cuts.

* `Regions.fork`, `Regions.nameThread`, `Regions.resolveAll`: what makes no region.
* `Regions.mapped`: the regions after a mapping.
-/

namespace Unslide
namespace Session

/-- `P` holds of all regions of all processes. -/
def Regions (s : Session) (P : Region → Prop) : Prop :=
  s.processes.All fun space => ∀ b ∈ space.blocks, P b

namespace Regions

variable {s : Session} {P Q : Region → Prop} {b : Region} {e : Mmap} {id pid : Nat}

theorem start (o : Options) (P : Region → Prop) : (Session.start o).Regions P :=
  Processes.Related.start

/-- A space that a process is given has no region but those that there are. -/
theorem ensure (h : s.Regions P) (pid parent : Nat) :
    (∀ b ∈ (s.processes.ensure pid parent).answer.1.blocks, P b) ∧
      (s.processes.ensure pid parent).state.All fun space => ∀ b ∈ space.blocks, P b := by
  have hnone : ∀ b ∈ (Space.aligned s.processes.page).blocks, P b := by
    rw [Space.aligned, Space.blocks_empty]
    rintro b ⟨⟩
  exact Processes.Related.ensure h hnone pid parent

theorem spaceOf (h : s.Regions P) (hb : b ∈ (s.spaceOf pid).blocks) : P b :=
  (h.ensure pid kernelPid).1 b hb

theorem fork (h : s.Regions P) (e : Lineage) : (s.fork e).state.Regions P := by
  simp only [Session.fork]
  split
  · exact h
  · exact (h.ensure e.pid e.ppid).2

theorem nameThread (h : s.Regions P) (e : Naming) : (s.nameThread e).state.Regions P :=
  (h.ensure e.pid kernelPid).2

theorem resolveAll (h : s.Regions P) (thread : Thread) (addrs : List Nat) :
    (s.resolveAll thread addrs).Regions P := by
  induction addrs generalizing s with
  | nil => exact h
  | cons addr rest ih =>
    refine ih ?_
    rw [Regions, (opened_resolve s addr thread).processes]
    exact (h.ensure thread.pid kernelPid).2

/-- After a mapping there are regions of before, parts of them, and that of the mapping if it was
granted. -/
theorem mapped (h : s.Regions P) (hs : s.Steady) (hpart : ∀ old b, P old → b.PartOf old → Q b)
    (hnew : (s.placed e id).answer = .ok () →
      ∀ place, Q (((e.geometry id).request id).block place)) : (s.mapped e id).Regions Q := by
  have hkept : (s.processes.ensure e.pid kernelPid).state.All fun space =>
      ∀ b ∈ space.blocks, Q b :=
    (h.ensure e.pid kernelPid).2.imp fun _ _ hspace b hb => hpart b b (hspace b hb) (.refl b)
  refine Processes.Related.put hkept ?_ e.pid
  intro b hb
  rcases (placed_obeys hs e id).law.mem_or hb with ⟨hok, place, rfl⟩ | ⟨old, hold, hb⟩
  · exact hnew hok place
  · exact hpart old b (h.spaceOf hold) hb

end Regions
end Session
end Unslide
