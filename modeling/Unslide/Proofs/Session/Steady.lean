import Unslide.Proofs.Session.Resolution
import Unslide.Proofs.Space.Lookup
import Unslide.Proofs.Space.Reservation
import Unslide.Session.Registration

/-!
# Unslide.Proofs.Session.Steady

What a session keeps on its walk through a capture: every space is sound and places by the page
size of the options. Where that page size is the one that synthetic addresses are held against, or
none are made, no address is ever found to have moved in its page. Then a look-up comes to what the
blocks of the space say, and a mapping is refused only if the space refuses it.

* `steady_register`, `steady_fork`, `steady_nameThread`, `steady_sample`: the invariant.
* `finding_of_mem`, `finding_of_free`, `finding_cases`: what a look-up comes to.
* `finding_of_contains`, `hitOf_eq_some_iff`: the same, where the options keep offsets.
* `register_granted`, `register_refused`, `register_granted_or_moved`: what becomes of a mapping.
-/

namespace Unslide

/-- No synthetic addresses are made, or the alignment they keep is a page size. -/
def Options.Keeps (o : Options) : Prop := o.remap = false ∨ isPowerOfTwo o.alignment = true

namespace Session

/-- All spaces are sound and place by the page size of the options. -/
structure Steady (s : Session) : Prop where
  page : s.processes.page = pageSize s.options.alignment
  spaces : s.processes.All fun space => space.Sound ∧ space.page = s.processes.page

/-- The space in which the addresses of a process are looked up. -/
def spaceOf (s : Session) (pid : Nat) : Space := (s.processes.ensure pid kernelPid).answer.1

variable {s t : Session} {space : Space} {thread : Thread} {pid addr : Nat} {b : Region}

theorem pageSize_pageSize (alignment : Nat) :
    pageSize (pageSize alignment) = pageSize alignment := by
  rcases Space.isPowerOfTwo_pageSize alignment with h | h
  · rw [h]
    rfl
  · exact if_pos h

namespace Steady

theorem of_processes (h : s.Steady) (ho : t.options = s.options)
    (hp : t.processes.page = s.processes.page)
    (hall : t.processes.All fun space => space.Sound ∧ space.page = s.processes.page) :
    t.Steady where
  page := by
    rw [hp, ho]
    exact h.page
  spaces := by
    rw [hp]
    exact hall

theorem start (o : Options) : (start o).Steady := ⟨rfl, .start⟩

/-- A space that a process is given is sound, and so are the others still. -/
theorem ensure (h : s.Steady) (pid parent : Nat) :
    ((s.processes.ensure pid parent).answer.1.Sound ∧
        (s.processes.ensure pid parent).answer.1.page = s.processes.page) ∧
      (s.processes.ensure pid parent).state.All fun space =>
        space.Sound ∧ space.page = s.processes.page := by
  have hpage : pageSize s.processes.page = s.processes.page := by
    rw [h.page, pageSize_pageSize]
  exact Processes.Related.ensure h.spaces ⟨Space.sound_aligned _, hpage⟩ pid parent

theorem sound_spaceOf (h : s.Steady) (pid : Nat) : (s.spaceOf pid).Sound :=
  (h.ensure pid kernelPid).1.1

theorem page_spaceOf (h : s.Steady) (pid : Nat) : (s.spaceOf pid).page = s.processes.page :=
  (h.ensure pid kernelPid).1.2

theorem opened (h : s.Steady) (hst : Opened pid s t) : t.Steady := by
  refine h.of_processes hst.options ?_ ?_
  · rw [hst.processes, Processes.page_ensure]
  · rw [hst.processes]
    exact (h.ensure pid kernelPid).2

end Steady

theorem steady_resolve (h : s.Steady) (addr : Nat) (thread : Thread) :
    (s.resolve addr thread).state.Steady :=
  h.opened (opened_resolve s addr thread)

theorem steady_resolveAll (h : s.Steady) (thread : Thread) (addrs : List Nat) :
    (s.resolveAll thread addrs).Steady := by
  induction addrs generalizing s with
  | nil => exact h
  | cons addr rest ih => exact ih (steady_resolve h addr thread)

theorem options_resolveAll (s : Session) (thread : Thread) (addrs : List Nat) :
    (s.resolveAll thread addrs).options = s.options := by
  induction addrs generalizing s with
  | nil => rfl
  | cons addr rest ih => exact (ih _).trans (opened_resolve s addr thread).options

theorem steady_sample (h : s.Steady) (e : Sample) : (s.sample e).state.Steady := by
  rw [state_sample]
  exact steady_resolveAll h _ _

theorem steady_fork (h : s.Steady) (e : Lineage) : (s.fork e).state.Steady := by
  simp only [fork]
  split
  · exact ⟨h.page, h.spaces⟩
  · exact h.of_processes rfl (Processes.page_ensure _ _ _) (h.ensure e.pid e.ppid).2

theorem steady_nameThread (h : s.Steady) (e : Naming) : (s.nameThread e).state.Steady :=
  h.of_processes rfl (Processes.page_ensure _ _ _) (h.ensure e.pid kernelPid).2

/-! ## Mappings -/

/-- The request of a mapping, and what the space of its process makes of it. -/
def placed (s : Session) (e : Mmap) (id : Nat) : Step Space (Except Refusal Unit) :=
  (s.spaceOf e.pid).reserve ((e.geometry id).request id) true

def mapped (s : Session) (e : Mmap) (id : Nat) : Session :=
  { s with
    images := (s.images.intern e.filename e.kernel).1
    processes := (s.processes.ensure e.pid kernelPid).state.put e.pid (s.placed e id).state }

def recordOf (s : Session) (e : Mmap) (id : Nat) : Mapping :=
  ⟨e.pid, (s.images.intern e.filename e.kernel).2, (e.geometry id).start, (e.geometry id).len,
    (e.geometry id).pgoff, 0⟩

def known (s : Session) (e : Mmap) (id : Nat) : Session :=
  (s.mapped e id).remember id (s.recordOf e id)

theorem placed_obeys (h : s.Steady) (e : Mmap) (id : Nat) :
    (s.spaceOf e.pid).Obeys (Space.Reserves (s.spaceOf e.pid).page (s.spaceOf e.pid).blocks
      ((e.geometry id).request id) true) (s.placed e id) :=
  Space.reserve_obeys (h.sound_spaceOf e.pid) _ _

theorem steady_mapped (h : s.Steady) (e : Mmap) (id : Nat) : (s.mapped e id).Steady := by
  have hobeys := placed_obeys h e id
  refine h.of_processes rfl ?_ ?_
  · simp only [mapped, Processes.page_put, Processes.page_ensure]
  · refine Processes.Related.put (h.ensure e.pid kernelPid).2 ⟨hobeys.sound, ?_⟩ e.pid
    exact hobeys.page.trans (h.page_spaceOf e.pid)

theorem steady_known (h : s.Steady) (e : Mmap) (id : Nat) : (s.known e id).Steady :=
  ⟨(steady_mapped h e id).page, (steady_mapped h e id).spaces⟩

theorem state_register (s : Session) (e : Mmap) (id : Nat) :
    (s.register e id).state = s.mapped e id ∨ (s.register e id).state = s.known e id := by
  simp only [register]
  split
  · exact .inl rfl
  · split
    · exact .inr rfl
    · split
      · exact .inl rfl
      · split
        · exact .inr rfl
        · exact .inl rfl

theorem steady_register (h : s.Steady) (e : Mmap) (id : Nat) : (s.register e id).state.Steady := by
  rcases state_register s e id with heq | heq
  · rw [heq]
    exact steady_mapped h e id
  · rw [heq]
    exact steady_known h e id

theorem register_refused {e : Mmap} {id : Nat} {refusal : Refusal}
    (h : (s.placed e id).answer = .error refusal) :
    (s.register e id).state = s.mapped e id ∧
      (s.register e id).answer = (e, .error (.mappingRefused id e.pid e.filename refusal)) := by
  simp only [placed, spaceOf] at h
  constructor
  · simp only [register, h]
    rfl
  · simp only [register, h]

/-! ## Addresses -/

theorem Steady.page_ne_zero (h : s.Steady) (hp : isPowerOfTwo s.options.alignment = true) :
    s.processes.page ≠ 0 := by
  rw [h.page, pageSize, if_pos hp]
  rintro h0
  rw [h0] at hp
  exact absurd hp (by decide)

/-- Where the options keep offsets, no address of a block is found to have moved. -/
theorem sameOffset_placeOf (h : s.Steady) (hk : s.options.Keeps) (hremap : s.options.remap ≠ false)
    (hs : space.Sound) (hpage : space.page = s.processes.page) (hb : b ∈ space.blocks)
    (hc : b.Contains addr) : SameOffset s.checkedPage addr (b.placeOf addr) := by
  have hne := h.page_ne_zero (hk.resolve_left hremap)
  have hoff := hs.offsets b hb
  rw [hpage] at hoff
  have hsum := Space.pageOffset_add_congr hoff (addr - b.start)
  have haddr : b.start + (addr - b.start) = addr := Nat.add_sub_cancel' hc.1
  rw [haddr] at hsum
  simp only [SameOffset, checkedPage, if_neg hne, Region.placeOf]
  simpa [pageOffset, hne] using hsum.symm

def shown (s : Session) (b : Region) (addr : Nat) : Nat :=
  if s.options.remap = false then addr else b.placeOf addr

/-- What an address of a block comes to: it is found in the mapping of the block, if the mapping is
on record, unless its synthetic address lies elsewhere in its page. -/
def judged (s : Session) (b : Region) (addr : Nat) : Finding :=
  match s.mappings.find? b.id with
  | none => .unrecorded b.id
  | some m =>
    if s.options.remap = false ∨ SameOffset s.checkedPage addr (b.placeOf addr) then
      .found b.id m ⟨s.shown b addr, ⟨m.image, b.fileOffset addr⟩⟩
    else .moved b.id m (b.placeOf addr)

theorem finding_of_mem (hs : space.Sound) (hb : b ∈ space.blocks) (hc : b.Contains addr) :
    s.finding space addr = s.judged b addr := by
  obtain ⟨handle, hlocate, hattribute⟩ := Space.locate?_of_contains hs hb hc
  simp only [finding, hlocate, hattribute, judged]
  cases s.mappings.find? b.id with
  | none => rfl
  | some m =>
    by_cases hremap : s.options.remap = false
    · simp only [hremap, shown, if_true, true_or]
    · rw [Bool.not_eq_false] at hremap
      simp only [hremap, shown, Bool.true_eq_false, if_false, false_or]

/-- Where the options keep offsets, an address of a block is found in the mapping of that block, if
the mapping is on record. -/
theorem finding_of_contains (h : s.Steady) (hk : s.options.Keeps) (hs : space.Sound)
    (hpage : space.page = s.processes.page) (hb : b ∈ space.blocks) (hc : b.Contains addr) :
    s.finding space addr =
      match s.mappings.find? b.id with
      | none => .unrecorded b.id
      | some m => .found b.id m ⟨s.shown b addr, ⟨m.image, b.fileOffset addr⟩⟩ := by
  rw [finding_of_mem hs hb hc, judged]
  cases s.mappings.find? b.id with
  | none => rfl
  | some m =>
    have hkept : s.options.remap = false ∨ SameOffset s.checkedPage addr (b.placeOf addr) :=
      (Decidable.em _).imp_right fun hremap => sameOffset_placeOf h hk hremap hs hpage hb hc
    simp only [if_pos hkept]

theorem finding_of_free (hs : space.Sound) (hfree : ∀ b ∈ space.blocks, ¬ b.Contains addr) :
    s.finding space addr = .nothing := by
  simp only [finding, Space.locate?_of_free hs hfree]

/-- An address lies in a block, which it comes to, or nothing is found. -/
theorem finding_cases (hs : space.Sound) (s : Session) (addr : Nat) :
    (∃ b ∈ space.blocks, b.Contains addr ∧ s.finding space addr = s.judged b addr) ∨
      s.finding space addr = .nothing := by
  by_cases hin : ∃ b ∈ space.blocks, b.Contains addr
  · obtain ⟨b, hb, hc⟩ := hin
    exact .inl ⟨b, hb, hc, finding_of_mem hs hb hc⟩
  · exact .inr (finding_of_free hs fun b hb hc => hin ⟨b, hb, hc⟩)

/-- What is found for an address: where its block puts it, the image on record for the number of the
block, and the file offset in the block. -/
theorem hitOf_eq_some_iff (h : s.Steady) (hk : s.options.Keeps) {hit : Hit} :
    s.hitOf thread addr = some hit ↔ ∃ b ∈ (s.spaceOf thread.pid).blocks, b.Contains addr ∧
      ∃ m, s.mappings.find? b.id = some m ∧
        hit = ⟨s.shown b addr, ⟨m.image, b.fileOffset addr⟩⟩ := by
  have hs := h.sound_spaceOf thread.pid
  rw [hitOf, answer_resolve, ← spaceOf]
  constructor
  · intro hhit
    rcases finding_cases hs s addr with ⟨b, hb, hc, -⟩ | hnothing
    · refine ⟨b, hb, hc, ?_⟩
      rw [finding_of_contains h hk hs (h.page_spaceOf thread.pid) hb hc] at hhit
      cases hm : s.mappings.find? b.id with
      | none =>
        rw [hm] at hhit
        cases hhit
      | some m =>
        rw [hm] at hhit
        cases hhit
        exact ⟨m, rfl, rfl⟩
    · rw [hnothing] at hhit
      cases hhit
  · rintro ⟨b, hb, hc, m, hm, rfl⟩
    rw [finding_of_contains h hk hs (h.page_spaceOf thread.pid) hb hc, hm]
    rfl

/-- A mapping that its space grants has a block, and its start is found where that is placed. -/
theorem located_of_placed (h : s.Steady) {e : Mmap} {id : Nat}
    (hok : (s.placed e id).answer = .ok ()) :
    ∃ m handle, ((e.geometry id).request id).block m ∈ (s.placed e id).state.blocks ∧
      (((e.geometry id).request id).block m).Contains (e.geometry id).start ∧
      (((e.geometry id).request id).block m).placeOf (e.geometry id).start = m ∧
      (s.placed e id).state.locate? (e.geometry id).start = some (m, handle) := by
  obtain ⟨hs, -, hlaw⟩ := placed_obeys h e id
  rw [hok] at hlaw
  obtain ⟨m, hm⟩ := hlaw.mem_block
  have hc : (((e.geometry id).request id).block m).Contains (e.geometry id).start :=
    ⟨Nat.le_refl _, Nat.lt_add_of_pos_right (hs.valid _ hm).1⟩
  obtain ⟨handle, hlocate, -⟩ := Space.locate?_of_contains hs hm hc
  have hplace : (((e.geometry id).request id).block m).placeOf (e.geometry id).start = m := by
    simp [Region.placeOf, Request.block, Request.region, Geometry.request]
  rw [hplace] at hlocate
  exact ⟨m, handle, hm, hc, hplace, hlocate⟩

/-- A mapping that its space grants is on record, and starts at the place of its block if the
session remaps. -/
theorem register_granted (h : s.Steady) (hk : s.options.Keeps) {e : Mmap} {id : Nat}
    (hok : (s.placed e id).answer = .ok ()) :
    (s.register e id).state = s.known e id ∧
      ∃ m, ((e.geometry id).request id).block m ∈ (s.placed e id).state.blocks ∧
        (s.register e id).answer =
          (if s.options.remap = false then e
            else { e with start := m, len := (e.geometry id).len, pgoff := (e.geometry id).pgoff },
            .ok ()) := by
  obtain ⟨hs, hpage, -⟩ := placed_obeys h e id
  obtain ⟨m, handle, hm, hc, hplace, hlocate⟩ := located_of_placed h hok
  by_cases hremap : s.options.remap = false
  · simp only [placed, spaceOf] at hok
    refine ⟨?_, m, hm, ?_⟩
    · simp only [register, hok, hremap, if_true]
      rfl
    · simp only [register, hok, hremap, if_true]
  · have hsame := sameOffset_placeOf h hk hremap hs (hpage.trans (h.page_spaceOf e.pid)) hm hc
    rw [hplace] at hsame
    simp only [placed, spaceOf] at hok hlocate
    rw [Bool.not_eq_false] at hremap
    refine ⟨?_, m, hm, ?_⟩
    · simp only [register, hok, hremap, Bool.true_eq_false, if_false, hlocate, if_pos hsame]
      rfl
    · simp only [register, hok, hremap, Bool.true_eq_false, if_false, hlocate, if_pos hsame]

/-- A mapping that its space grants is on record, or its synthetic start lies elsewhere in its
page. -/
theorem register_granted_or_moved (h : s.Steady) {e : Mmap} {id : Nat}
    (hok : (s.placed e id).answer = .ok ()) :
    (s.register e id).state = s.known e id ∨
      (s.register e id).state = s.mapped e id ∧
        ∃ real place, (s.register e id).answer.2 = .error (.startMoved real place) := by
  obtain ⟨m, handle, -, -, -, hlocate⟩ := located_of_placed h hok
  simp only [placed, spaceOf] at hok hlocate
  simp only [register, hok, hlocate]
  split
  · exact .inl rfl
  · split
    · exact .inl rfl
    · exact .inr ⟨rfl, _, _, rfl⟩

/-- An address that is resolved lies in a block whose mapping is on record. -/
theorem block_of_hitOf (h : s.Steady) {hit : Hit} (hhit : s.hitOf thread addr = some hit) :
    ∃ b ∈ (s.spaceOf thread.pid).blocks, b.Contains addr ∧
      ∃ m, s.mappings.find? b.id = some m ∧ hit.location = ⟨m.image, b.fileOffset addr⟩ := by
  rw [hitOf, answer_resolve, ← spaceOf] at hhit
  rcases finding_cases (h.sound_spaceOf thread.pid) s addr with ⟨b, hb, hc, hjudged⟩ | hnothing
  · refine ⟨b, hb, hc, ?_⟩
    rw [hjudged, judged] at hhit
    cases hm : s.mappings.find? b.id with
    | none =>
      rw [hm] at hhit
      cases hhit
    | some m =>
      simp only [hm] at hhit
      split at hhit
      · cases hhit
        exact ⟨m, rfl, rfl⟩
      · cases hhit
  · rw [hnothing] at hhit
    cases hhit

end Session
end Unslide
