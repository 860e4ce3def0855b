import Mathlib.Data.List.Induction
import Mathlib.Logic.Function.Basic
import Unslide.Proofs.Run
import Unslide.Proofs.Space.Overlay

/-!
# Unslide.Proofs.Histories

The space of a process is what its history made of it. The history of a process is the list of the
requests that its mappings made, behind those that it was born with: the history that its parent, or
else the kernel, had at that moment. Records of other processes are not in it.

* `Tells`: every space is what its history makes of a new space.
* `Tells.meet`, `Tells.ask`: a process is met, and a mapping makes its request.
* `space_eq_history`: whatever records a run was fed, and whatever became of them.
-/

namespace Unslide

/-- A new process makes these requests of its space, oldest first. -/
def Space.serve (s : Space) (requests : List Request) : Space :=
  s.performAll (requests.map fun q => .reserve q true)

theorem Space.serve_concat (s : Space) (requests : List Request) (q : Request) :
    s.serve (requests ++ [q]) = ((s.serve requests).reserve q true).state := by
  simp only [serve, performAll, List.map_append, List.map_cons, List.map_nil, List.foldl_append,
    List.foldl_cons, List.foldl_nil, perform]

/-- The requests made for each process that was met, oldest first. -/
abbrev Histories := Nat → Option (List Request)

namespace Histories

def blank : Histories := fun _ => none

/-- The history that a process is born with: the kernel with none, any other process with that of
its parent, if the parent was met, and else with that of the kernel. -/
def inherited (h : Histories) (pid parent : Nat) : List Request :=
  if pid = kernelPid then [] else ((h parent).or (h kernelPid)).getD []

/-- A process is named by a record. -/
def meet (h : Histories) (pid parent : Nat) : Histories :=
  if (h pid).isSome then h else Function.update h pid (some (h.inherited pid parent))

def ask (h : Histories) (pid : Nat) (q : Request) : Histories :=
  Function.update h pid ((h pid).map (· ++ [q]))

/-- What a record adds. The parent is known for a fork only, and a fork within one process adds
nothing. -/
def follow (h : Histories) (number : Nat) : Event → Histories
  | .mmap e => (h.meet e.pid kernelPid).ask e.pid ((e.geometry number).request number)
  | .fork e => if e.pid = e.ppid then h else h.meet e.pid e.ppid
  | .exit _ => h
  | .comm e => h.meet e.pid kernelPid
  | .sample e => h.meet e.pid kernelPid

/-- The histories of the processes of a capture, whose records are numbered from zero. -/
def ofCapture (es : List Event) : Histories :=
  es.zipIdx.foldl (fun h e => h.follow e.2 e.1) blank

theorem ofCapture_concat (es : List Event) (e : Event) :
    ofCapture (es ++ [e]) = (ofCapture es).follow es.length e := by
  simp only [ofCapture, List.zipIdx_append, List.foldl_append, List.zipIdx_singleton,
    List.foldl_cons, List.foldl_nil, Nat.zero_add]

variable {h : Histories} {pid parent : Nat} {q : Request}

theorem meet_of_known {requests : List Request} (hk : h pid = some requests) :
    h.meet pid parent = h := by
  simp only [meet, hk, Option.isSome_some, if_true]

theorem meet_of_unknown (hu : h pid = none) :
    h.meet pid parent = Function.update h pid (some (h.inherited pid parent)) := by
  simp only [meet, hu, Option.isSome_none, Bool.false_eq_true, if_false]

end Histories

/-- Every process with a history has the space that its history makes of a new one, and no other
process has a space. The kernel's space is kept apart from the others. -/
structure Tells (h : Histories) (ps : Processes) : Prop where
  spaces : ∀ pid, ps.get? pid = (h pid).map (Space.aligned ps.page).serve
  kernel : ps.spaces.find? kernelPid = none

namespace Tells

variable {h : Histories} {ps : Processes} {pid parent : Nat} {q : Request}

theorem start (alignment : Nat) : Tells .blank (.start alignment) where
  spaces pid := by
    simp only [Processes.get?, Processes.start, Histories.blank, Option.map_none]
    split <;> rfl
  kernel := rfl

theorem put (ht : Tells h ps) (requests : List Request) :
    Tells (Function.update h pid (some requests))
      (ps.put pid ((Space.aligned ps.page).serve requests)) where
  spaces other := by
    rw [Processes.page_put]
    by_cases ho : other = pid
    · subst ho
      rw [Processes.get?_put_self, Function.update_self]
      rfl
    · rw [Processes.get?_put_of_ne _ _ ho, Function.update_of_ne ho]
      exact ht.spaces other
  kernel := by
    unfold Processes.put
    split
    · exact ht.kernel
    · rename_i hne
      rw [Index.find?_insert_of_ne _ _ (Ne.symm hne)]
      exact ht.kernel

/-- The space of a process without a history is seeded with the history that it is born with. -/
theorem seed (ht : Tells h ps) (pid parent : Nat) :
    (ps.seed pid parent).1 = (Space.aligned ps.page).serve (h.inherited pid parent) := by
  have hkernel := ht.spaces kernelPid
  have hparent : ps.spaces.find? parent =
      if parent = kernelPid then none else (h parent).map (Space.aligned ps.page).serve := by
    split
    · rename_i heq
      rw [heq, ht.kernel]
    · rename_i hne
      rw [← ht.spaces parent, Processes.get?, if_neg hne]
  rw [Processes.get?, if_pos rfl] at hkernel
  simp only [Processes.seed, Histories.inherited]
  by_cases hpid : pid = kernelPid
  · simp only [if_pos hpid]
    rfl
  · simp only [if_neg hpid, hparent, hkernel]
    by_cases heq : parent = kernelPid
    · subst heq
      rw [if_pos rfl, Option.or_self]
      cases h kernelPid <;> rfl
    · rw [if_neg heq]
      cases h parent with
      | some requests => rfl
      | none => cases h kernelPid <;> rfl

theorem meet (ht : Tells h ps) (pid parent : Nat) :
    Tells (h.meet pid parent) (ps.ensure pid parent).state := by
  have hget := ht.spaces pid
  cases hh : h pid with
  | some requests =>
    rw [hh, Option.map_some] at hget
    rw [Histories.meet_of_known hh, Processes.ensure_of_get? hget]
    exact ht
  | none =>
    rw [hh, Option.map_none] at hget
    have hstate : (ps.ensure pid parent).state = ps.put pid (ps.seed pid parent).1 := by
      simp only [Processes.ensure, hget]
    rw [Histories.meet_of_unknown hh, hstate, ht.seed]
    exact ht.put _

/-- A process that was met makes a request of its space. -/
theorem ask (ht : Tells h ps) (pid parent : Nat) (q : Request) :
    Tells ((h.meet pid parent).ask pid q)
      ((ps.ensure pid parent).state.put pid
        ((ps.ensure pid parent).answer.1.reserve q true).state) := by
  have hmet := ht.meet pid parent
  have hspace := hmet.spaces pid
  rw [Processes.get?_ensure] at hspace
  generalize h.meet pid parent = h' at hmet hspace
  cases hh : h' pid with
  | none =>
    rw [hh] at hspace
    cases hspace
  | some requests =>
    rw [hh, Option.map_some, Option.some.injEq] at hspace
    rw [hspace, ← Space.serve_concat, Histories.ask, hh]
    exact hmet.put _

end Tells

namespace Run

theorem tells_feed {h : Histories} {r : Run} (ht : Tells h r.session.processes) (e : Event) :
    Tells (h.follow r.count e) (r.feed e).state.session.processes := by
  cases e with
  | mmap e =>
    have hasked := ht.ask e.pid kernelPid ((e.geometry r.count).request r.count)
    rcases Session.state_register r.session e r.count with heq | heq <;>
      simp only [feed, heq] <;> exact hasked
  | fork e =>
    simp only [feed, Session.fork, Histories.follow]
    split
    · exact ht
    · exact ht.meet e.pid e.ppid
  | exit e => exact ht
  | comm e => exact ht.meet e.pid kernelPid
  | sample e =>
    simp only [feed, Histories.follow]
    rw [(Session.opened_sample r.session e).processes]
    exact ht.meet e.pid kernelPid

theorem tells_through (o : Options) (es : List Event) :
    Tells (.ofCapture es) ((start o).through es).session.processes := by
  induction es using List.reverseRecOn with
  | nil => exact .start o.alignment
  | append_singleton es e ih =>
    have hnext := tells_feed ih e
    rw [count_start] at hnext
    rw [through_concat, Histories.ofCapture_concat]
    exact hnext

/-- **The space of a process is what its history made of it.** Whatever records a run was fed, and
whatever became of them, exactly the processes that they name have a space, it keeps the page
offsets that the run keeps, and it is the one that the requests of the process and of its lineage,
one after the other, make of a new space. -/
theorem space_eq_history (o : Options) (es : List Event) :
    let ps := ((start o).through es).session.processes
    ps.page = pageSize o.alignment ∧
    (∀ pid, ps.get? pid = (Histories.ofCapture es pid).map (Space.aligned ps.page).serve) ∧
    ∀ pid space, ps.get? pid = some space → space.page = ps.page := by
  intro ps
  have hsteady : ((start o).through es).session.Steady := steady_through (.start o) es
  refine ⟨?_, (tells_through o es).spaces, ?_⟩
  · have hpage := hsteady.page
    rw [options_through] at hpage
    exact hpage
  · intro pid space hspace
    have hrel := hsteady.spaces.get? pid
    rw [hspace] at hrel
    cases hrel with
    | some hkept => exact hkept.2

/-- A child is born with the history of its parent, a refused request and the kernel's among it, and
then maps over what its parent had mapped. A process that only a sample names is born with the
kernel's history, and one that no record names has no space. -/
theorem space_eq_history_forked :
    let o : Options := ⟨true, Decimal.ofCount 95, 0x1000⟩
    let es : List Event := [.mmap ⟨topId, 0, 0x1000, 0x5000, 0x3000, "kernel", true⟩,
      .mmap ⟨7, 7, 0x10000, 0x3000, 0, "a", false⟩, .mmap ⟨7, 7, 0x11000, 0x800, 0, "b", false⟩,
      .fork ⟨8, 7, 8, 7⟩, .mmap ⟨8, 8, 0x11000, 0x1000, 0, "c", false⟩,
      .sample ⟨9, 9, 0x3020, [], []⟩]
    let ps := ((start o).through es).session.processes
    let inherited : List Request :=
      [⟨0x3000, 0x3000, 0, 0⟩, ⟨0x10000, 0x3000, 1, 0⟩, ⟨0x11000, 0x800, 2, 0⟩]
    ps.page = 0x1000 ∧ ps.get? 7 = some ((Space.aligned 0x1000).serve inherited) ∧
      ps.get? 8 =
        some ((Space.aligned 0x1000).serve (inherited ++ [⟨0x11000, 0x1000, 4, 0⟩])) ∧
      ps.get? 9 = some ((Space.aligned 0x1000).serve [⟨0x3000, 0x3000, 0, 0⟩]) ∧
      ps.get? 10 = none ∧
      (ps.get? 8).map (fun space => space.regions.map fun r => (r.start, r.place, r.id)) =
        some [(0x3000, 0, 0), (0x10000, 0x3000, 1), (0x11000, 0x4000, 4),
          (0x12000, 0x5000, 1)] := by
  intro o es ps inherited
  obtain ⟨hpage, hspaces, -⟩ := space_eq_history o es
  have hgrain : ps.page = 0x1000 := by
    rw [hpage]
    decide
  have hspace : ∀ pid, ps.get? pid =
      (Histories.ofCapture es pid).map (Space.aligned 0x1000).serve := by
    intro pid
    rw [hspaces pid, hgrain]
  have hparent : Histories.ofCapture es 7 = some inherited := by decide
  have hchild : Histories.ofCapture es 8 = some (inherited ++ [⟨0x11000, 0x1000, 4, 0⟩]) := by
    decide
  have hsampled : Histories.ofCapture es 9 = some [⟨0x3000, 0x3000, 0, 0⟩] := by decide
  have hunnamed : Histories.ofCapture es 10 = none := by decide
  refine ⟨hgrain, ?_, ?_, ?_, ?_, by decide +kernel⟩
  · rw [hspace, hparent, Option.map_some]
  · rw [hspace, hchild, Option.map_some]
  · rw [hspace, hsampled, Option.map_some]
  · rw [hspace, hunnamed, Option.map_none]

end Run
end Unslide
