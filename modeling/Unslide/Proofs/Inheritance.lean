import Unslide.Proofs.Histories
import Unslide.Proofs.Provenance
import Unslide.Proofs.Session.Rereading
import Unslide.Proofs.Space.Frame

/-!
# Unslide.Proofs.Inheritance

What a process inherits stays the same on both sides. When a process is met for the first time it
gets a copy of the space of its parent, or of the kernel's, and the two go their own ways: each is
carved by mappings of its own, and puts what it maps where it finds room. But a mapping that shares
no address with a region leaves the region where it is. So a region that was inherited is the same
in both spaces, until one of them maps something over it.

* `mem_blocks_serve`: a region that no request touches.
* `mem_asked`: the requests of a process in a capture.
* `ofCapture_of_known`, `ofCapture_of_opened`: what a capture adds to a history.
* `resolve_eq_of_shared`: an address of a region that two processes share.
* `history_of_request`: a request in a history, and the process that made it.
* `inheritance_coherent`: whatever records a run was fed, and whatever became of them.
-/

namespace Unslide

/-! ## Spaces -/

namespace Space

variable {s t : Space} {q : Request} {b : Region} {addr : Nat}

theorem sound_serve (h : s.Sound) (requests : List Request) : (s.serve requests).Sound := by
  induction requests using List.reverseRecOn with
  | nil => exact h
  | append_singleton requests q ih =>
    rw [serve_concat]
    exact (reserve_obeys ih q true).sound

theorem serve_append (s : Space) (requests more : List Request) :
    s.serve (requests ++ more) = (s.serve requests).serve more := by
  simp only [serve, performAll, List.map_append, List.foldl_append]

theorem mem_blocks_serve (h : s.Sound) (hb : b ∈ s.blocks) {requests : List Request}
    (hrequests : ∀ q ∈ requests, ¬ q.Touches b) : b ∈ (s.serve requests).blocks := by
  induction requests using List.reverseRecOn with
  | nil => exact hb
  | append_singleton requests q ih =>
    rw [serve_concat]
    refine mem_blocks_reserve (sound_serve h requests) (ih fun p hp => hrequests p ?_)
      (hrequests q ?_) true
    · exact List.mem_append_left _ hp
    · exact List.mem_append_right _ List.mem_cons_self

end Space

/-! ## Histories -/

theorem Geometry.request_id (g : Geometry) (id : Nat) : (g.request id).id = id := rfl

namespace Event

/-- The process that a record names, and the one that its space is a copy of if it has none yet. -/
def opens? : Event → Option (Nat × Nat)
  | .mmap e => some (e.pid, kernelPid)
  | .fork e => if e.pid = e.ppid then none else some (e.pid, e.ppid)
  | .exit _ => none
  | .comm e => some (e.pid, kernelPid)
  | .sample e => some (e.pid, kernelPid)

/-- The requests that a record makes of the space of a process. -/
def asks (number pid : Nat) : Event → List Request
  | .mmap e => if e.pid = pid then [(e.geometry number).request number] else []
  | .fork _ | .exit _ | .comm _ | .sample _ => []

end Event

namespace Histories

/-- The requests that the records of a capture, the first of them under the given number, make of
the space of a process. -/
def asked (number pid : Nat) (es : List Event) : List Request :=
  (es.zipIdx number).flatMap fun e => e.1.asks e.2 pid

variable {h : Histories} {pid parent other number : Nat} {requests : List Request} {e : Event}

theorem asked_cons (number pid : Nat) (e : Event) (rest : List Event) :
    asked number pid (e :: rest) = e.asks number pid ++ asked (number + 1) pid rest := rfl

theorem mem_asks {q : Request} : q ∈ e.asks number pid ↔
    ∃ m, e = .mmap m ∧ m.pid = pid ∧ q = (m.geometry number).request number := by
  cases e with
  | mmap m =>
    simp only [Event.asks, Event.mmap.injEq, exists_eq_left']
    split
    · rename_i hpid
      simp only [List.mem_singleton, hpid, true_and]
    · rename_i hpid
      simp only [List.not_mem_nil, hpid, false_and]
  | fork e => simp [Event.asks]
  | exit e => simp [Event.asks]
  | comm e => simp [Event.asks]
  | sample e => simp [Event.asks]

theorem mem_asked {es : List Event} {q : Request} : q ∈ asked number pid es ↔
    ∃ (i : Nat) (m : Mmap), es[i]? = some (.mmap m) ∧ m.pid = pid ∧
      q = (m.geometry (number + i)).request (number + i) := by
  induction es generalizing number with
  | nil => simp [asked]
  | cons e rest ih =>
    rw [asked_cons, List.mem_append, mem_asks, ih]
    constructor
    · intro h
      cases h with
      | inl hfirst =>
        obtain ⟨m, rfl, hpid, hq⟩ := hfirst
        exact ⟨0, m, rfl, hpid, hq⟩
      | inr hrest =>
        obtain ⟨i, m, hm, hpid, hq⟩ := hrest
        rw [Nat.add_right_comm, Nat.add_assoc] at hq
        exact ⟨i + 1, m, hm, hpid, hq⟩
    · intro h
      obtain ⟨i, m, hm, hpid, hq⟩ := h
      cases i with
      | zero => exact .inl ⟨m, Option.some.inj hm, hpid, hq⟩
      | succ i =>
        rw [← Nat.add_assoc, Nat.add_right_comm] at hq
        exact .inr ⟨i, m, hm, hpid, hq⟩

theorem meet_known (hk : h other = some requests) : h.meet pid parent other = some requests := by
  by_cases heq : other = pid
  · rw [← heq, meet_of_known hk, hk]
  · unfold meet
    split
    · exact hk
    · rw [Function.update_of_ne heq]
      exact hk

theorem meet_opened (hu : h pid = none) :
    h.meet pid parent pid = some (h.inherited pid parent) := by
  rw [meet_of_unknown hu, Function.update_self]

theorem ask_known (hk : h other = some requests) (m : Mmap) (number : Nat) :
    h.ask m.pid ((m.geometry number).request number) other =
      some (requests ++ (Event.mmap m).asks number other) := by
  by_cases heq : other = m.pid
  · rw [← heq, ask, Function.update_self, hk]
    simp only [Event.asks, if_pos heq.symm]
    rfl
  · rw [ask, Function.update_of_ne heq, hk]
    simp only [Event.asks, if_neg (Ne.symm heq), List.append_nil]

/-- A process that has a history goes on with its own requests, whatever others do. -/
theorem follow_known (hk : h pid = some requests) (number : Nat) (e : Event) :
    h.follow number e pid = some (requests ++ e.asks number pid) := by
  cases e with
  | mmap m => exact ask_known (meet_known hk) m number
  | fork e =>
    simp only [follow, Event.asks, List.append_nil]
    split
    · exact hk
    · exact meet_known hk
  | exit e =>
    rw [Event.asks, List.append_nil]
    exact hk
  | comm e =>
    rw [Event.asks, List.append_nil]
    exact meet_known hk
  | sample e =>
    rw [Event.asks, List.append_nil]
    exact meet_known hk

/-- A process that is met for the first time goes on from the history that it is born with. -/
theorem follow_opened (hopens : e.opens? = some (pid, parent)) (hu : h pid = none) (number : Nat) :
    h.follow number e pid = some (h.inherited pid parent ++ e.asks number pid) := by
  cases e with
  | mmap m =>
    cases hopens
    exact ask_known (meet_opened hu) m number
  | fork e =>
    simp only [Event.opens?] at hopens
    split at hopens
    · cases hopens
    · rename_i hne
      cases hopens
      simp only [follow, if_neg hne, Event.asks, List.append_nil]
      exact meet_opened hu
  | exit e => cases hopens
  | comm e =>
    cases hopens
    rw [Event.asks, List.append_nil]
    exact meet_opened hu
  | sample e =>
    cases hopens
    rw [Event.asks, List.append_nil]
    exact meet_opened hu

theorem ofCapture_of_known {es : List Event} (hk : ofCapture es pid = some requests)
    (more : List Event) :
    ofCapture (es ++ more) pid = some (requests ++ asked es.length pid more) := by
  induction more generalizing es requests with
  | nil => simpa [asked] using hk
  | cons e rest ih =>
    have hnext : ofCapture (es ++ [e]) pid = some (requests ++ e.asks es.length pid) := by
      rw [ofCapture_concat]
      exact follow_known hk es.length e
    have hrest := ih hnext
    rw [List.length_append, List.length_singleton, List.append_assoc, List.append_assoc,
      ← asked_cons] at hrest
    exact hrest

theorem ofCapture_of_opened {es : List Event} (hopens : e.opens? = some (pid, parent))
    (hu : ofCapture es pid = none) (more : List Event) :
    ofCapture (es ++ e :: more) pid =
      some ((ofCapture es).inherited pid parent ++ asked es.length pid (e :: more)) := by
  have hnext : ofCapture (es ++ [e]) pid =
      some ((ofCapture es).inherited pid parent ++ e.asks es.length pid) := by
    rw [ofCapture_concat]
    exact follow_opened hopens hu es.length
  have hrest := ofCapture_of_known hnext more
  rw [List.length_append, List.length_singleton, List.append_assoc, List.append_assoc,
    ← asked_cons] at hrest
  exact hrest

/-! ## Requests and those who made them -/

/-- A request was made by the process of a mapping, which had then the history that comes before it,
whoever has it now. -/
def Made (es : List Event) (h : Histories) : Prop :=
  ∀ pid requests earlier q, h pid = some requests → earlier ++ [q] <+: requests →
    ∃ m, es[q.id]? = some (.mmap m) ∧ ofCapture (es.take (q.id + 1)) m.pid = some (earlier ++ [q])

namespace Made

variable {es : List Event}

theorem concat (hmade : Made es h) (e : Event) : Made (es ++ [e]) h := by
  intro pid requests earlier q hh hbegins
  obtain ⟨m, hm, htake⟩ := hmade pid requests earlier q hh hbegins
  have hlt : q.id < es.length := (List.getElem?_eq_some_iff.1 hm).1
  refine ⟨m, ?_, ?_⟩
  · rw [List.getElem?_append_left hlt]
    exact hm
  · rw [List.take_append_of_le_length hlt]
    exact htake

theorem inherited (hmade : Made es h) {earlier : List Request} {q : Request}
    (hbegins : earlier ++ [q] <+: h.inherited pid parent) :
    ∃ m, es[q.id]? = some (.mmap m) ∧
      ofCapture (es.take (q.id + 1)) m.pid = some (earlier ++ [q]) := by
  have hnil : ¬ earlier ++ [q] <+: [] := by
    intro h
    simpa using List.prefix_nil.1 h
  unfold Histories.inherited at hbegins
  split at hbegins
  · exact absurd hbegins hnil
  · cases hparent : h parent with
    | some requests =>
      rw [hparent] at hbegins
      exact hmade _ _ _ _ hparent hbegins
    | none =>
      cases hkernel : h kernelPid with
      | some requests =>
        rw [hparent, hkernel] at hbegins
        exact hmade _ _ _ _ hkernel hbegins
      | none =>
        rw [hparent, hkernel] at hbegins
        exact absurd hbegins hnil

theorem meet (hmade : Made es h) (pid parent : Nat) : Made es (h.meet pid parent) := by
  unfold Histories.meet
  split
  · exact hmade
  · intro other requests earlier q hh hbegins
    by_cases heq : other = pid
    · rw [heq, Function.update_self, Option.some.injEq] at hh
      subst hh
      exact hmade.inherited hbegins
    · rw [Function.update_of_ne heq] at hh
      exact hmade _ _ _ _ hh hbegins

/-- The history of the process that makes a request is the one that the request ends. -/
theorem ask (hmade : Made es h) (m : Mmap)
    (hlast : ofCapture (es ++ [.mmap m]) =
      h.ask m.pid ((m.geometry es.length).request es.length)) :
    Made (es ++ [.mmap m]) (h.ask m.pid ((m.geometry es.length).request es.length)) := by
  intro pid requests earlier q hh hbegins
  by_cases heq : pid = m.pid
  · subst heq
    have hown := hh
    rw [Histories.ask, Function.update_self, Option.map_eq_some_iff] at hown
    obtain ⟨before, hbefore, rfl⟩ := hown
    rw [List.prefix_concat_iff] at hbegins
    cases hbegins with
    | inl hwhole =>
      obtain ⟨rfl, hq⟩ := List.append_inj' hwhole rfl
      rw [List.singleton_inj] at hq
      subst hq
      refine ⟨m, List.getElem?_concat_length, ?_⟩
      have htake : (es ++ [Event.mmap m]).take (es.length + 1) = es ++ [.mmap m] :=
        List.take_of_length_le (by simp)
      rw [Geometry.request_id, htake, hlast]
      exact hh
    | inr hbegins => exact hmade.concat _ _ _ _ _ hbefore hbegins
  · rw [Histories.ask, Function.update_of_ne heq] at hh
    exact hmade.concat _ _ _ _ _ hh hbegins

end Made

theorem made_ofCapture (es : List Event) : Made es (ofCapture es) := by
  induction es using List.reverseRecOn with
  | nil =>
    intro pid requests earlier q hh
    cases hh
  | append_singleton es e ih =>
    have hlast := ofCapture_concat es e
    cases e with
    | mmap m =>
      have hasked := (ih.meet m.pid kernelPid).ask m hlast
      rw [hlast]
      exact hasked
    | fork f =>
      rw [hlast]
      simp only [follow]
      split
      · exact ih.concat _
      · exact (ih.meet _ _).concat _
    | exit f =>
      rw [hlast]
      exact ih.concat _
    | comm f =>
      rw [hlast]
      exact (ih.meet _ _).concat _
    | sample f =>
      rw [hlast]
      exact (ih.meet _ _).concat _

end Histories

/-! ## Look-ups -/

namespace Session

variable {s : Session} {space : Space} {b : Region} {addr : Nat} {e : Mmap} {id : Nat}

/-- An address of a region is found alike in all spaces that have the region. -/
theorem finding_eq_of_shared {space' : Space} (hs : space.Sound) (hs' : space'.Sound)
    (hb : b ∈ space.blocks) (hb' : b ∈ space'.blocks) (hc : b.Contains addr) :
    s.finding space addr = s.finding space' addr := by
  obtain ⟨handle, hlocate, hattribute⟩ := Space.locate?_of_contains hs hb hc
  obtain ⟨handle', hlocate', hattribute'⟩ := Space.locate?_of_contains hs' hb' hc
  simp only [finding, hlocate, hattribute, hlocate', hattribute']

/-- A mapping that is taken by a session that remaps is written with the place of its block, at the
same offset in its page. -/
theorem register_written (h : s.Steady) (hremap : s.options.remap = true) {f : Mmap}
    (hok : (s.register e id).answer = (f, .ok ())) :
    SameOffset s.checkedPage (e.geometry id).start f.start ∧
      ((e.geometry id).request id).block f.start ∈ (s.placed e id).state.blocks ∧
      (s.register e id).state = s.known e id := by
  cases hp : (s.placed e id).answer with
  | error refusal =>
    rw [(register_refused hp).2] at hok
    cases hok
  | ok _ =>
    obtain ⟨place, handle, hblock, -, -, hlocate⟩ := located_of_placed h hp
    simp only [placed, spaceOf] at hp hlocate
    simp only [register, hp, hlocate, hremap, Bool.true_eq_false, if_false] at hok ⊢
    split at hok
    · rename_i hsame
      cases hok
      refine ⟨hsame, hblock, ?_⟩
      rw [if_pos hsame]
      rfl
    · cases hok

theorem sameOffset_add {page a b : Nat} (h : SameOffset page a b) (n : Nat) :
    SameOffset page (a + n) (b + n) := by
  unfold SameOffset at h ⊢
  rw [Nat.add_mod, h, ← Nat.add_mod]

/-- An address of a block whose mapping is on record is found, if its place is at the same offset in
its page. -/
theorem finding_of_block {m : Mapping} (hremap : s.options.remap = true) (hs : space.Sound)
    (hb : b ∈ space.blocks) (hc : b.Contains addr) (hm : s.mappings.find? b.id = some m)
    (hsame : SameOffset s.checkedPage addr (b.placeOf addr)) :
    s.finding space addr = .found b.id m ⟨b.placeOf addr, ⟨m.image, b.fileOffset addr⟩⟩ := by
  rw [finding_of_mem hs hb hc]
  simp only [judged, shown, hm, hsame, hremap, Bool.true_eq_false, or_true, if_true, if_false]

end Session

/-! ## Runs -/

namespace Run

variable {o : Options} {es before after : List Event} {e : Event} {pid origin child : Nat}

/-- The record `e` is the first one to name the process `child`, and gives it a copy of the space of
`origin`: that of its parent, or else that of the kernel. -/
structure Seeds (ps : Processes) (e : Event) (origin child : Nat) : Prop where
  unmet : ps.get? child = none
  process : child ≠ kernelPid
  opens : ∃ parent, e.opens? = some (child, parent) ∧
    (origin = parent ∨ ps.get? parent = none ∧ origin = kernelPid)

/-- No mapping of the process, from the record of that number on, asks for an address of the
region. -/
def Spared (es : List Event) (number pid : Nat) (r : Region) : Prop :=
  ∀ (i : Nat) (m : Mmap), number ≤ i → es[i]? = some (.mmap m) → m.pid = pid →
    ¬ ((m.geometry i).request i).Touches r

theorem spared_iff {r : Region} : Spared (before ++ after) before.length pid r ↔
    ∀ q ∈ Histories.asked before.length pid after, ¬ q.Touches r := by
  constructor
  · intro h q hq
    obtain ⟨i, m, hm, hpid, rfl⟩ := Histories.mem_asked.1 hq
    refine h (before.length + i) m (Nat.le_add_right _ _) ?_ hpid
    rw [List.getElem?_append_right (Nat.le_add_right _ _), Nat.add_sub_cancel_left]
    exact hm
  · intro h i m hi hm hpid
    rw [List.getElem?_append_right hi] at hm
    refine h _ (Histories.mem_asked.2 ⟨i - before.length, m, hm, hpid, ?_⟩)
    rw [Nat.add_sub_cancel' hi]

theorem page_through (o : Options) (es : List Event) :
    ((start o).through es).session.processes.page = pageSize o.alignment :=
  (space_eq_history o es).1

theorem get?_through (o : Options) (es : List Event) (pid : Nat) :
    ((start o).through es).session.processes.get? pid =
      (Histories.ofCapture es pid).map (Space.aligned (pageSize o.alignment)).serve := by
  have hspace := (space_eq_history o es).2.1 pid
  rw [page_through] at hspace
  exact hspace

theorem history_of_get? {space : Space}
    (h : ((start o).through es).session.processes.get? pid = some space) :
    ∃ requests, Histories.ofCapture es pid = some requests ∧
      (Space.aligned (pageSize o.alignment)).serve requests = space := by
  rw [get?_through, Option.map_eq_some_iff] at h
  exact h

/-- A process is born with the history of the one that its space is a copy of. -/
theorem Seeds.inherited {requests : List Request}
    (h : Seeds ((start o).through es).session.processes e origin child)
    (horigin : Histories.ofCapture es origin = some requests) :
    Histories.ofCapture es child = none ∧ ∃ parent, e.opens? = some (child, parent) ∧
      (Histories.ofCapture es).inherited child parent = requests := by
  obtain ⟨hunmet, hprocess, parent, hopens, hcopy⟩ := h
  rw [get?_through, Option.map_eq_none_iff] at hunmet
  refine ⟨hunmet, parent, hopens, ?_⟩
  rw [Histories.inherited, if_neg hprocess]
  cases hcopy with
  | inl heq =>
    rw [heq] at horigin
    rw [horigin]
    rfl
  | inr hkernel =>
    obtain ⟨hnone, heq⟩ := hkernel
    rw [get?_through, Option.map_eq_none_iff] at hnone
    rw [heq] at horigin
    rw [hnone, horigin]
    rfl

/-- A region that a part of the history of a process leaves, and the rest does not touch. -/
theorem mem_blocks_through {requests more : List Request} {r : Region}
    (hhistory : Histories.ofCapture es pid = some (requests ++ more))
    (hr : r ∈ ((Space.aligned (pageSize o.alignment)).serve requests).blocks)
    (hmore : ∀ q ∈ more, ¬ q.Touches r) :
    ∃ space, ((start o).through es).session.processes.get? pid = some space ∧ space.Sound ∧
      r ∈ space.blocks := by
  have hsound : (Space.aligned (pageSize o.alignment)).Sound := Space.sound_aligned _
  refine ⟨(Space.aligned (pageSize o.alignment)).serve (requests ++ more), ?_, ?_, ?_⟩
  · rw [get?_through, hhistory]
    rfl
  · exact Space.sound_serve hsound _
  · rw [Space.serve_append]
    exact Space.mem_blocks_serve (Space.sound_serve hsound _) hr hmore

/-- A region that two processes share is told alike for the threads of either. -/
theorem resolve_eq_of_shared {s : Session} {space space' : Space} {r : Region}
    {thread thread' : Thread} (hspace : s.processes.get? thread.pid = some space)
    (hspace' : s.processes.get? thread'.pid = some space') (hs : space.Sound) (hs' : space'.Sound)
    (hr : r ∈ space.blocks) (hr' : r ∈ space'.blocks) {addr : Nat} (hc : r.Contains addr) :
    (s.resolve addr thread).answer = (s.resolve addr thread').answer := by
  rw [Session.answer_resolve, Session.answer_resolve, Processes.ensure_of_get? hspace,
    Processes.ensure_of_get? hspace', Session.finding_eq_of_shared hs hs' hr hr' hc]

/-- What was live in the space of `origin` when `child` got a copy of it. -/
theorem shared_of_seeds {space : Space} {r : Region}
    (hseeds : Seeds ((start o).through before).session.processes e origin child)
    (hspace : ((start o).through before).session.processes.get? origin = some space)
    (hr : r ∈ space.blocks) (horigin : Spared (before ++ e :: after) before.length origin r)
    (hchild : Spared (before ++ e :: after) before.length child r) :
    ∃ own inherited,
      ((start o).through (before ++ e :: after)).session.processes.get? origin = some own ∧
      ((start o).through (before ++ e :: after)).session.processes.get? child = some inherited ∧
      own.Sound ∧ inherited.Sound ∧ r ∈ own.blocks ∧ r ∈ inherited.blocks := by
  obtain ⟨requests, hhistory, rfl⟩ := history_of_get? hspace
  obtain ⟨hunmet, parent, hopens, hinherited⟩ := hseeds.inherited hhistory
  obtain ⟨own, hown, hsound, hlive⟩ :=
    mem_blocks_through (Histories.ofCapture_of_known hhistory (e :: after)) hr (spared_iff.1 horigin)
  have hborn := Histories.ofCapture_of_opened hopens hunmet after
  rw [hinherited] at hborn
  obtain ⟨inherited, hgot, hsound', hlive'⟩ := mem_blocks_through hborn hr (spared_iff.1 hchild)
  exact ⟨own, inherited, hown, hgot, hsound, hsound', hlive, hlive'⟩

/-- A mapping that was taken is on record for the rest of the capture. -/
theorem entered_of_taken {number : Nat} {m f : Mmap} {s : Session} {place : Nat}
    (hledger : Ledger o es s) (hm : es[number]? = some (.mmap m))
    (htaken : (((start o).through (es.take number)).feed (.mmap m)).answer = (.mmap f, .ok none))
    {space : Space} (hspace : s.processes.get? pid = some space)
    (hb : ((m.geometry number).request number).block place ∈ space.blocks) :
    ∃ n, s.mappings.find? number = some n ∧ s.Entered number m n := by
  obtain ⟨hrecorded, hlost⟩ := hledger.account (hledger.regions.of_get? hspace _ hb)
  have hmoved : s.mappings.find? number = none → Moved o es number := hlost
  cases hfind : s.mappings.find? number with
  | none =>
    obtain ⟨m', real, place', hm', hfailed⟩ := hmoved hfind
    cases hm.symm.trans hm'
    rw [htaken] at hfailed
    cases hfailed
  | some n =>
    obtain ⟨-, m', hm', hentered⟩ := hrecorded n hfind
    cases hm.symm.trans hm'
    exact ⟨n, rfl, hentered⟩

theorem checkedPage_through (o : Options) (es fs : List Event) :
    ((start o).through es).session.checkedPage = ((start o).through fs).session.checkedPage := by
  simp only [Session.checkedPage, page_through]

/-- A mapping that is taken by a run that remaps is written with the place of its block. -/
theorem placed_of_taken {m f : Mmap} (hremap : o.remap = true)
    (htaken : (((start o).through es).feed (.mmap m)).answer = (.mmap f, .ok none)) :
    ∃ space, ((start o).through (es ++ [.mmap m])).session.processes.get? m.pid = some space ∧
      ((m.geometry es.length).request es.length).block f.start ∈ space.blocks ∧
      Session.SameOffset ((start o).through es).session.checkedPage (m.geometry es.length).start
        f.start := by
  have hcount := count_start o es
  have hsteady : ((start o).through es).session.Steady := steady_through (.start o) es
  have hremaps : ((start o).through es).session.options.remap = true := by
    rw [options_through]
    exact hremap
  rw [through_concat]
  generalize (start o).through es = r at htaken hcount hsteady hremaps
  have hregister : (r.session.register m es.length).answer = (f, .ok ()) := by
    simp only [feed, hcount, Prod.mk.injEq, Event.mmap.injEq] at htaken
    obtain ⟨hwritten, hanswer⟩ := htaken
    refine Prod.ext hwritten ?_
    cases hok : (r.session.register m es.length).answer.2 with
    | error failure =>
      rw [hok] at hanswer
      cases hanswer
    | ok _ => rfl
  obtain ⟨hsame, hblock, hstate⟩ := Session.register_written hsteady hremaps hregister
  refine ⟨(r.session.placed m es.length).state, ?_, hblock, hsame⟩
  simp only [feed, hcount, hstate]
  exact Processes.get?_put_self _ _ _

/-- The block of a mapping that was taken, at the address that was written for it, is live in the
space of every process whose history has the request of the mapping, and nothing over it since. -/
theorem block_of_taken {number : Nat} {m f : Mmap} {earlier later : List Request}
    (hremap : o.remap = true) (hm : es[number]? = some (.mmap m))
    (htaken : (((start o).through (es.take number)).feed (.mmap m)).answer = (.mmap f, .ok none))
    (hhistory : Histories.ofCapture es pid =
      some (earlier ++ (m.geometry number).request number :: later))
    (hlater : ∀ q ∈ later, ¬ q.Touches ((m.geometry number).request number).region) :
    ∃ space, ((start o).through es).session.processes.get? pid = some space ∧ space.Sound ∧
      ((m.geometry number).request number).block f.start ∈ space.blocks ∧
      Session.SameOffset ((start o).through es).session.checkedPage (m.geometry number).start
        f.start := by
  have hlength : (es.take number).length = number := by
    rw [List.length_take]
    exact Nat.min_eq_left (Nat.le_of_lt (List.getElem?_eq_some_iff.1 hm).1)
  have hnext : es.take (number + 1) = es.take number ++ [.mmap m] := by
    rw [List.take_add_one, hm]
    rfl
  obtain ⟨written, hwritten, hblock, hsame⟩ := placed_of_taken hremap htaken
  rw [hlength] at hblock hsame
  -- when the request was made, its process had the history that the request ends
  have hbegins : earlier ++ [(m.geometry number).request number] <+:
      earlier ++ (m.geometry number).request number :: later := ⟨later, by simp⟩
  obtain ⟨m', hm', hmade⟩ := Histories.made_ofCapture es pid _ earlier _ hhistory hbegins
  rw [Geometry.request_id] at hm' hmade
  cases hm.symm.trans hm'
  rw [get?_through, ← hnext, hmade, Option.map_some, Option.some.injEq] at hwritten
  rw [← hwritten] at hblock
  rw [List.append_cons] at hhistory
  obtain ⟨space, hspace, hsound, hlive⟩ := mem_blocks_through hhistory hblock hlater
  rw [checkedPage_through o (es.take number) es] at hsame
  exact ⟨space, hspace, hsound, hlive, hsame⟩

/-- **What a process inherits stays the same on both sides.** Whatever records a run was fed, and
whatever became of them: let `child` get a copy of the space of `origin`, and let a region be live
in that space. As long as no mapping of either process asks for one of its addresses, the region is
live in both, with all that is known of it, and its addresses are told alike for the threads of
either. In particular, in a run that remaps, let a mapping be taken, the kernel's or another. Then
every process whose history has the request of this mapping, and nothing over it since, whether the
process made the request or inherited it, tells the addresses of the mapping by the start that was
written for it in its one record, and by its file. -/
theorem inheritance_coherent (o : Options) :
    (∀ (before after : List Event) (e : Event) (origin child : Nat) (space : Space) (r : Region),
      let es := before ++ e :: after
      let s := ((start o).through es).session
      Seeds ((start o).through before).session.processes e origin child →
      ((start o).through before).session.processes.get? origin = some space → r ∈ space.blocks →
      Spared es before.length origin r → Spared es before.length child r →
        (∃ own inherited, s.processes.get? origin = some own ∧
          s.processes.get? child = some inherited ∧ r ∈ own.blocks ∧ r ∈ inherited.blocks) ∧
        ∀ (addr : Nat) (thread thread' : Thread), r.Contains addr → thread.pid = origin →
          thread'.pid = child → (s.resolve addr thread).answer = (s.resolve addr thread').answer) ∧
    ∀ (es : List Event) (number pid : Nat) (m f : Mmap) (earlier later : List Request),
      let s := ((start o).through es).session
      let q := (m.geometry number).request number
      o.remap = true → es[number]? = some (.mmap m) →
      (((start o).through (es.take number)).feed (.mmap m)).answer = (.mmap f, .ok none) →
      Histories.ofCapture es pid = some (earlier ++ q :: later) →
      (∀ q' ∈ later, ¬ q'.Touches q.region) →
        ∀ (addr : Nat) (thread : Thread), q.region.Contains addr → thread.pid = pid →
          ∃ hit, (s.resolve addr thread).answer = some hit ∧
            hit.address = f.start + (addr - q.start) ∧
            s.images.nameOf? hit.location.image = some m.filename ∧
            hit.location.offset = wrap (addr - q.start + q.base) := by
  constructor
  · intro before after e origin child space r es s hseeds hspace hr horigin hchild
    obtain ⟨own, inherited, hown, hgot, hsound, hsound', hlive, hlive'⟩ :=
      shared_of_seeds hseeds hspace hr horigin hchild
    refine ⟨⟨own, inherited, hown, hgot, hlive, hlive'⟩, ?_⟩
    intro addr thread thread' hc hthread hthread'
    subst hthread hthread'
    exact resolve_eq_of_shared hown hgot hsound hsound' hlive hlive' hc
  · intro es number pid m f earlier later s q hremap hm htaken hhistory hlater addr thread hc
      hthread
    subst hthread
    obtain ⟨space, hspace, hsound, hlive, hsame⟩ :=
      block_of_taken hremap hm htaken hhistory hlater
    obtain ⟨n, hn, hentered⟩ := entered_of_taken (Ledger.through o es) hm htaken hspace hlive
    have hremaps : s.options.remap = true := by
      rw [options_through]
      exact hremap
    have haddr : (m.geometry number).start + (addr - (m.geometry number).start) = addr :=
      Nat.add_sub_cancel' hc.1
    have hplaced := Session.sameOffset_add hsame (addr - (m.geometry number).start)
    rw [haddr] at hplaced
    have hfound := Session.finding_of_block hremaps hsound hlive hc hn hplaced
    refine ⟨⟨_, ⟨n.image, _⟩⟩, ?_, rfl, hentered.image, rfl⟩
    rw [Session.answer_resolve, Processes.ensure_of_get? hspace, hfound]
    rfl

/-- A process that has the kernel's text is forked; after that the kernel maps a module, and the
child maps over what its parent had mapped. The kernel's text is told alike in parent and child, and
by the start that is written for the kernel's first mapping. -/
theorem inheritance_coherent_kernel :
    let o : Options := ⟨true, Decimal.ofCount 95, 0x1000⟩
    let kernel : Mmap := ⟨topId, 0, 0x1000, 0x5000, 0x3000, "kernel", true⟩
    let before : List Event := [.mmap kernel, .mmap ⟨7, 7, 0x10000, 0x2000, 0, "a", false⟩]
    let after : List Event :=
      [.mmap ⟨topId, 0, 0x8000, 0x1000, 0, "module", true⟩,
        .mmap ⟨8, 8, 0x10000, 0x1000, 0, "b", false⟩]
    let s := ((start o).through (before ++ .fork ⟨8, 7, 8, 7⟩ :: after)).session
    ((start o).feed (.mmap kernel)).answer.1 =
        .mmap ⟨topId, 0, 0, 0x3000, 0, "kernel", true⟩ ∧
      (s.resolve 0x3020 ⟨7, 7⟩).answer = (s.resolve 0x3020 ⟨8, 8⟩).answer ∧
      ∃ hit, (s.resolve 0x3020 ⟨8, 8⟩).answer = some hit ∧ hit.address = 0 + (0x3020 - 0x3000) ∧
        s.images.nameOf? hit.location.image = some "kernel" := by
  intro o kernel before after s
  have hgiven : (((start o).through before).session.processes.get? 7).bind
      (fun space => space.blockAt? 0) = some ⟨0x3000, 0x3000, 0, 0, 0, 0⟩ := by decide +kernel
  obtain ⟨space, hspace, hblock⟩ := Option.bind_eq_some_iff.1 hgiven
  have hr : (⟨0x3000, 0x3000, 0, 0, 0, 0⟩ : Region) ∈ space.blocks :=
    Space.mem_blocks_iff_blockAt?.2 ⟨0, hblock⟩
  have hunmet : ((start o).through before).session.processes.get? 8 = none := by
    rw [get?_through, Option.map_eq_none_iff]
    decide +kernel
  have hseeds : Seeds ((start o).through before).session.processes (.fork ⟨8, 7, 8, 7⟩) 7 8 :=
    ⟨hunmet, by decide, 7, rfl, .inl rfl⟩
  have hparent : Spared (before ++ .fork ⟨8, 7, 8, 7⟩ :: after) before.length 7
      ⟨0x3000, 0x3000, 0, 0, 0, 0⟩ := spared_iff.2 (by decide +kernel)
  have hchild : Spared (before ++ .fork ⟨8, 7, 8, 7⟩ :: after) before.length 8
      ⟨0x3000, 0x3000, 0, 0, 0, 0⟩ := spared_iff.2 (by decide +kernel)
  have hwritten : ((start o).feed (.mmap kernel)).answer.1 =
      .mmap ⟨topId, 0, 0, 0x3000, 0, "kernel", true⟩ := by decide +kernel
  have htaken : ((start o).feed (.mmap kernel)).answer =
      (.mmap ⟨topId, 0, 0, 0x3000, 0, "kernel", true⟩, .ok none) := by
    refine Prod.ext hwritten ?_
    have hok : ((start o).feed (.mmap kernel)).answer.2.toOption = some none := by decide +kernel
    cases hanswer : ((start o).feed (.mmap kernel)).answer.2 with
    | error failure =>
      rw [hanswer] at hok
      cases hok
    | ok found =>
      rw [hanswer] at hok
      cases hok
      rfl
  have hhistory : Histories.ofCapture (before ++ .fork ⟨8, 7, 8, 7⟩ :: after) 8 =
      some ([] ++ (kernel.geometry 0).request 0 ::
        [⟨0x10000, 0x2000, 1, 0⟩, ⟨0x10000, 0x1000, 4, 0⟩]) := by decide +kernel
  have hlater : ∀ q ∈ [(⟨0x10000, 0x2000, 1, 0⟩ : Request), ⟨0x10000, 0x1000, 4, 0⟩],
      ¬ q.Touches ((kernel.geometry 0).request 0).region := by decide +kernel
  have hc : ((kernel.geometry 0).request 0).region.Contains 0x3020 := by decide +kernel
  have hc' : (⟨0x3000, 0x3000, 0, 0, 0, 0⟩ : Region).Contains 0x3020 := by decide +kernel
  obtain ⟨hinherited, hmapped⟩ := inheritance_coherent o
  obtain ⟨-, halike⟩ := hinherited before after _ 7 8 space _ hseeds hspace hr hparent hchild
  obtain ⟨hit, hhit, haddress, hname, -⟩ :=
    hmapped _ 0 8 kernel _ [] _ rfl rfl htaken hhistory hlater 0x3020 ⟨8, 8⟩ hc rfl
  have hstart : ((kernel.geometry 0).request 0).start = 0x3000 := by decide +kernel
  rw [hstart] at haddress
  exact ⟨hwritten, halike 0x3020 ⟨7, 7⟩ ⟨8, 8⟩ hc' rfl rfl, hit, hhit, haddress, hname⟩

end Run
end Unslide
