import Mathlib.Data.List.Induction
import Unslide.Proofs.Images
import Unslide.Proofs.Run
import Unslide.Proofs.Session.Regions

/-!
# Unslide.Proofs.Provenance

Where an attribution comes from. Every region of every space goes back to one record of a mapping,
however often it was cut, and through however many forks it came down: it lies in the interval of
that mapping, at the file offsets of that mapping. So does every address that is resolved.

* `Remembers`: what a session keeps of its mappings and names.
* `Ledger`: every region is accounted for by the record that bears its number.
* `Ledger.feed`: one more record.
* `attribution_traceable`: whatever records a run was fed, and whatever became of them.
-/

namespace Unslide

namespace Mapping

/-- The same mapping before any address was resolved into it. -/
def fresh (m : Mapping) : Mapping := { m with samples := 0 }

def geometry (m : Mapping) : Geometry := ⟨m.start, m.len, m.pgoff⟩

def Contains (m : Mapping) (addr : Nat) : Prop := m.start ≤ addr ∧ addr < m.start + m.len

/-- The region lies in the mapping, and its file offsets are those of the mapping. -/
structure Holds (m : Mapping) (b : Region) : Prop where
  start : m.start ≤ b.start
  stop : b.stop ≤ m.start + m.len
  base : wrap b.base = wrap (m.pgoff + (b.start - m.start))

variable {m n : Mapping} {b old : Region} {addr : Nat}

theorem Holds.of_partOf (h : m.Holds old) (hpart : b.PartOf old) : m.Holds b where
  start := Nat.le_trans h.start hpart.start
  stop := Nat.le_trans hpart.stop h.stop
  base := by
    have hbase := h.base
    have hstart := h.start
    have hpartStart := hpart.start
    have hshift : m.pgoff + (b.start - m.start) =
        m.pgoff + (old.start - m.start) + (b.start - old.start) := by omega
    rw [hpart.base, hshift]
    simp only [wrap] at hbase ⊢
    rw [Nat.add_mod, hbase, ← Nat.add_mod]

theorem holds_bare : m.Holds b.bare ↔ m.Holds b :=
  ⟨fun h => ⟨h.start, h.stop, h.base⟩, fun h => ⟨h.start, h.stop, h.base⟩⟩

theorem Holds.of_fresh (h : m.Holds b) (heq : n.fresh = m.fresh) : n.Holds b := by
  obtain ⟨_, _, _, _, _, _⟩ := m
  obtain ⟨_, _, _, _, _, _⟩ := n
  cases heq
  exact ⟨h.start, h.stop, h.base⟩

theorem Holds.contains (h : m.Holds b) (hc : b.Contains addr) : m.Contains addr :=
  ⟨Nat.le_trans h.start hc.1, Nat.lt_of_lt_of_le hc.2 h.stop⟩

theorem Holds.fileOffset (h : m.Holds b) (hc : b.Contains addr) :
    b.fileOffset addr = wrap (addr - m.start + m.pgoff) := by
  have hbase := h.base
  have hstart := h.start
  have haddr := hc.1
  have hshift : addr - m.start + m.pgoff = addr - b.start + (m.pgoff + (b.start - m.start)) := by
    omega
  rw [Region.fileOffset, hshift]
  simp only [wrap] at hbase ⊢
  rw [Nat.add_mod, hbase, ← Nat.add_mod]

end Mapping

namespace Session

variable {s t u : Session} {thread : Thread} {id : Nat} {e : Mmap} {m : Mapping}

/-- All that `s` has on record is on record in `t`, up to the addresses resolved into it, and no
more; and images keep their names. -/
structure Remembers (s t : Session) : Prop where
  mappings : ∀ id, (t.mappings.find? id).map Mapping.fresh = (s.mappings.find? id).map Mapping.fresh
  names : ∀ image name, s.images.nameOf? image = some name → t.images.nameOf? image = some name

/-- The mapping on record under a number is that of the record `e`. -/
structure Entered (s : Session) (id : Nat) (e : Mmap) (m : Mapping) : Prop where
  found : s.mappings.find? id = some m
  pid : m.pid = e.pid
  geometry : m.geometry = e.geometry id
  image : s.images.nameOf? m.image = some e.filename

namespace Remembers

theorem refl (s : Session) : s.Remembers s := ⟨fun _ => rfl, fun _ _ h => h⟩

theorem trans (hst : s.Remembers t) (htu : t.Remembers u) : s.Remembers u where
  mappings id := (htu.mappings id).trans (hst.mappings id)
  names image name h := htu.names image name (hst.names image name h)

theorem find?_none (h : s.Remembers t) (hs : s.mappings.find? id = none) :
    t.mappings.find? id = none := by
  have hid := h.mappings id
  rwa [hs, Option.map_none, Option.map_eq_none_iff] at hid

theorem find?_some (h : s.Remembers t) (ht : t.mappings.find? id = some m) :
    ∃ n, s.mappings.find? id = some n ∧ m.fresh = n.fresh := by
  have hid := h.mappings id
  rw [ht, Option.map_some, eq_comm, Option.map_eq_some_iff] at hid
  obtain ⟨n, hn, heq⟩ := hid
  exact ⟨n, hn, heq.symm⟩

theorem entered (h : s.Remembers t) {n : Mapping} (hs : s.Entered id e n)
    (ht : t.mappings.find? id = some m) (heq : m.fresh = n.fresh) : t.Entered id e m := by
  have hfields := heq
  simp only [Mapping.fresh, Mapping.mk.injEq] at hfields
  obtain ⟨hpid, himage, hstart, hlen, hpgoff, -⟩ := hfields
  refine ⟨ht, hpid.trans hs.pid, ?_, ?_⟩
  · rw [← hs.geometry]
    simp only [Mapping.geometry, hstart, hlen, hpgoff]
  · rw [himage]
    exact h.names _ _ hs.image

end Remembers

theorem remembers_countHit (hm : s.mappings.find? id = some m) (thread : Thread) :
    s.Remembers (s.countHit id m thread) where
  mappings other := by
    simp only [countHit]
    by_cases ho : other = id
    · subst ho
      rw [Index.find?_insert_self, hm]
      rfl
    · rw [Index.find?_insert_of_ne _ _ ho]
  names image name h := by
    rw [Images.nameOf?_eq] at h ⊢
    rw [countHit, Images.names_record, h]

theorem remembers_resolve (s : Session) (addr : Nat) (thread : Thread) :
    s.Remembers (s.resolve addr thread).state := by
  simp only [resolve]
  cases h : s.finding (s.processes.ensure thread.pid kernelPid).answer.1 addr with
  | nothing => exact ⟨fun _ => rfl, fun _ _ h => h⟩
  | unrecorded id => exact ⟨fun _ => rfl, fun _ _ h => h⟩
  | moved id m place =>
    have hm := remembers_countHit (find?_of_finding (.inr ⟨place, h⟩)) thread
    exact ⟨hm.mappings, hm.names⟩
  | found id m hit =>
    have hm := remembers_countHit (find?_of_finding (.inl ⟨hit, h⟩)) thread
    exact ⟨hm.mappings, hm.names⟩

theorem remembers_resolveAll (s : Session) (thread : Thread) (addrs : List Nat) :
    s.Remembers (s.resolveAll thread addrs) := by
  induction addrs generalizing s with
  | nil => exact .refl s
  | cons addr rest ih => exact (remembers_resolve s addr thread).trans (ih _)

theorem remembers_sample (s : Session) (e : Sample) : s.Remembers (s.sample e).state := by
  rw [state_sample]
  exact remembers_resolveAll s _ _

theorem remembers_fork (s : Session) (e : Lineage) : s.Remembers (s.fork e).state := by
  simp only [fork]
  split <;> exact ⟨fun _ => rfl, fun _ _ h => h⟩

theorem remembers_nameThread (s : Session) (e : Naming) : s.Remembers (s.nameThread e).state :=
  ⟨fun _ => rfl, fun _ _ h => h⟩

theorem remembers_mapped (s : Session) (e : Mmap) (id : Nat) : s.Remembers (s.mapped e id) :=
  ⟨fun _ => rfl, fun _ _ h => Images.nameOf?_intern_of_known h _ _⟩

theorem entered_known (s : Session) (e : Mmap) (id : Nat) :
    (s.known e id).Entered id e (s.recordOf e id) where
  found := Index.find?_insert_self _ _ _
  pid := rfl
  geometry := rfl
  image := Images.nameOf?_intern _ _ _

theorem recordOf_holds (s : Session) (e : Mmap) (id place : Nat) :
    (s.recordOf e id).Holds (((e.geometry id).request id).block place) where
  start := Nat.le_refl _
  stop := Nat.le_refl _
  base := congrArg wrap (by simp [recordOf, Request.block, Request.region, Geometry.request])

end Session

/-- The record of that number is a mapping, and it failed since its synthetic start lay elsewhere in
its page. -/
def Run.Moved (o : Options) (es : List Event) (id : Nat) : Prop :=
  ∃ e real place, es[id]? = some (.mmap e) ∧
    (((start o).through (es.take id)).feed (.mmap e)).answer.2 = .error (.startMoved real place)

/-- The region lies in the mapping on record under its number, or its mapping failed late. -/
inductive Accounted (o : Options) (es : List Event) (s : Session) (b : Region) : Prop where
  | recorded {m : Mapping} : s.mappings.find? b.id = some m → m.Holds b → Accounted o es s b
  | moved : s.mappings.find? b.id = none → Run.Moved o es b.id → Accounted o es s b

/-- Every mapping on record is that of the record of its number, and every region of every space is
accounted for. -/
structure Ledger (o : Options) (es : List Event) (s : Session) : Prop where
  entries : ∀ id m, s.mappings.find? id = some m →
    ∃ e, es[id]? = some (.mmap e) ∧ s.Entered id e m
  regions : s.processes.All fun space => ∀ b ∈ space.blocks, Accounted o es s b

variable {o : Options} {es : List Event} {s t : Session} {b old : Region}

theorem Run.Moved.concat {id : Nat} (h : Run.Moved o es id) (e : Event) :
    Run.Moved o (es ++ [e]) id := by
  obtain ⟨m, real, place, hm, hfed⟩ := h
  have hlt : id < es.length := (List.getElem?_eq_some_iff.1 hm).1
  refine ⟨m, real, place, ?_, ?_⟩
  · rw [List.getElem?_append_left hlt]
    exact hm
  · rw [List.take_append_of_le_length (Nat.le_of_lt hlt)]
    exact hfed

namespace Accounted

theorem of_partOf (h : Accounted o es s old) (hpart : b.PartOf old) : Accounted o es s b := by
  cases h with
  | recorded hm hholds =>
    rw [← hpart.id] at hm
    exact .recorded hm (hholds.of_partOf hpart)
  | moved hnone hmoved =>
    rw [← hpart.id] at hnone hmoved
    exact .moved hnone hmoved

theorem step (h : Accounted o es s b) (hst : s.Remembers t) (e : Event) :
    Accounted o (es ++ [e]) t b := by
  cases h with
  | @recorded m hm hholds =>
    have hid := hst.mappings b.id
    rw [hm, Option.map_some, Option.map_eq_some_iff] at hid
    obtain ⟨n, hn, heq⟩ := hid
    exact .recorded hn (hholds.of_fresh heq)
  | moved hnone hmoved => exact .moved (hst.find?_none hnone) (hmoved.concat e)

end Accounted

namespace Ledger

theorem start (o : Options) : Ledger o [] (.start o) where
  entries id m h := by
    cases h
  regions := .start

theorem spaceOf (h : Ledger o es s) (pid : Nat) : ∀ b ∈ (s.spaceOf pid).blocks,
    Accounted o es s b :=
  fun _ hb => Session.Regions.spaceOf h.regions hb

/-- The numbers of regions are those of records that are over. -/
theorem lt_length (h : Ledger o es s) (hb : Accounted o es s b) : b.id < es.length := by
  cases hb with
  | recorded hm _ =>
    obtain ⟨e, he, -⟩ := h.entries _ _ hm
    exact (List.getElem?_eq_some_iff.1 he).1
  | moved _ hmoved =>
    obtain ⟨e, _, _, he, -⟩ := hmoved
    exact (List.getElem?_eq_some_iff.1 he).1

theorem entries_step (h : Ledger o es s) (hst : s.Remembers t) (e : Event) (id : Nat)
    (m : Mapping) (hm : t.mappings.find? id = some m) :
    ∃ f, (es ++ [e])[id]? = some (.mmap f) ∧ t.Entered id f m := by
  obtain ⟨n, hn, heq⟩ := hst.find?_some hm
  obtain ⟨f, hf, hentered⟩ := h.entries id n hn
  refine ⟨f, ?_, hst.entered hentered hm heq⟩
  rw [List.getElem?_append_left (List.getElem?_eq_some_iff.1 hf).1]
  exact hf

/-- A record that adds no region leaves every region accounted for. -/
theorem step (h : Ledger o es s) (hst : s.Remembers t)
    (hall : t.processes.All fun space => ∀ b ∈ space.blocks, Accounted o es s b) (e : Event) :
    Ledger o (es ++ [e]) t where
  entries := h.entries_step hst e
  regions := hall.imp fun _ _ hspace b hb => (hspace b hb).step hst e

/-! ## Mappings -/

variable {e : Mmap}

/-- The block of a request that was granted under the number of the next record. -/
def Fresh (s : Session) (e : Mmap) (es : List Event) (b : Region) : Prop :=
  (s.placed e es.length).answer = .ok () ∧
    ∃ m, b = ((e.geometry es.length).request es.length).block m

/-- After a mapping a region is new, or it is accounted for by what was known before. -/
theorem mapped (h : Ledger o es s) (hs : s.Steady) :
    (s.mapped e es.length).processes.All fun space =>
      ∀ b ∈ space.blocks, Fresh s e es b ∨ Accounted o es s b :=
  Session.Regions.mapped h.regions hs (fun _ _ hold hpart => .inr (hold.of_partOf hpart))
    fun hok place => .inl ⟨hok, place, rfl⟩

/-- The number of the next record is not on record. -/
theorem find?_length (h : Ledger o es s) : s.mappings.find? es.length = none := by
  cases hm : s.mappings.find? es.length with
  | none => rfl
  | some m =>
    obtain ⟨e, he, -⟩ := h.entries _ _ hm
    exact absurd (List.getElem?_eq_some_iff.1 he).1 (Nat.lt_irrefl _)

theorem known (h : Ledger o es s) (hs : s.Steady) :
    Ledger o (es ++ [.mmap e]) (s.known e es.length) where
  entries id m hm := by
    by_cases hid : id = es.length
    · subst hid
      have hentered := Session.entered_known s e es.length
      rw [hentered.found, Option.some.injEq] at hm
      subst hm
      exact ⟨e, List.getElem?_concat_length, hentered⟩
    · have hother : (s.mapped e es.length).mappings.find? id = some m :=
        (Index.find?_insert_of_ne _ _ hid).symm.trans hm
      obtain ⟨f, hf, hentered⟩ :=
        h.entries_step (Session.remembers_mapped s e es.length) (.mmap e) id m hother
      exact ⟨f, hf, hm, hentered.pid, hentered.geometry, hentered.image⟩
  regions := by
    refine (h.mapped hs (e := e)).imp ?_
    intro space _ hspace b hb
    rcases hspace b hb with ⟨-, m, rfl⟩ | hold
    · exact .recorded (Session.entered_known s e es.length).found (s.recordOf_holds e es.length m)
    · have hne : b.id ≠ es.length := Nat.ne_of_lt (h.lt_length hold)
      cases hold.step (Session.remembers_mapped s e es.length) (.mmap e) with
      | recorded hm hholds => exact .recorded ((Index.find?_insert_of_ne _ _ hne).trans hm) hholds
      | moved hnone hmoved => exact .moved ((Index.find?_insert_of_ne _ _ hne).trans hnone) hmoved

theorem lost (h : Ledger o es s) (hs : s.Steady)
    (hmoved : Run.Moved o (es ++ [.mmap e]) es.length) :
    Ledger o (es ++ [.mmap e]) (s.mapped e es.length) where
  entries := h.entries_step (Session.remembers_mapped s e es.length) _
  regions := by
    refine (h.mapped hs (e := e)).imp ?_
    intro space _ hspace b hb
    rcases hspace b hb with ⟨-, m, rfl⟩ | hold
    · exact .moved h.find?_length hmoved
    · exact hold.step (Session.remembers_mapped s e es.length) _

theorem refused (h : Ledger o es s) (hs : s.Steady)
    (hno : (s.placed e es.length).answer ≠ .ok ()) :
    Ledger o (es ++ [.mmap e]) (s.mapped e es.length) := by
  refine h.step (Session.remembers_mapped s e es.length) ?_ _
  exact (h.mapped hs (e := e)).imp fun _ _ hspace b hb =>
    (hspace b hb).resolve_left fun hnew => hno hnew.1

/-! ## Runs -/

/-- One more record leaves every region accounted for. -/
theorem feed (h : Ledger o es ((Run.start o).through es).session) (e : Event) :
    Ledger o (es ++ [e]) (((Run.start o).through es).feed e).state.session := by
  have hs : ((Run.start o).through es).session.Steady := Run.steady_through (.start o) es
  have hcount := Run.count_start o es
  have hmovedAt : ∀ (f : Mmap) (real place : Nat),
      (((Run.start o).through es).session.register f es.length).answer.2 =
        .error (.startMoved real place) → Run.Moved o (es ++ [.mmap f]) es.length := by
    intro f real place hf
    refine ⟨f, real, place, List.getElem?_concat_length, ?_⟩
    rw [List.take_left]
    simp only [Run.feed, hcount, hf]
    rfl
  generalize (Run.start o).through es = r at h hs hcount hmovedAt
  cases e with
  | mmap f =>
    have hstate : (r.feed (.mmap f)).state.session = (r.session.register f es.length).state := by
      simp only [Run.feed, hcount]
    rw [hstate]
    cases hp : (r.session.placed f es.length).answer with
    | error refusal =>
      rw [(Session.register_refused hp).1]
      exact h.refused hs (by simp [hp])
    | ok _ =>
      rcases Session.register_granted_or_moved hs hp with hknown | ⟨hmapped, real, place, hfailed⟩
      · rw [hknown]
        exact h.known hs
      · rw [hmapped]
        exact h.lost hs (hmovedAt f real place hfailed)
  | fork f =>
    exact h.step (Session.remembers_fork r.session f) (Session.Regions.fork h.regions f) _
  | exit f => exact h.step (.refl _) h.regions _
  | comm f =>
    exact h.step (Session.remembers_nameThread r.session f)
      (Session.Regions.nameThread h.regions f) _
  | sample f =>
    refine h.step (Session.remembers_sample r.session f) ?_ _
    rw [Session.state_sample]
    exact Session.Regions.resolveAll h.regions f.thread _

theorem through (o : Options) (es : List Event) :
    Ledger o es ((Run.start o).through es).session := by
  induction es using List.reverseRecOn with
  | nil => exact .start o
  | append_singleton es e ih =>
    rw [Run.through_concat]
    exact ih.feed e

/-! ## What a ledger tells -/

theorem account (h : Ledger o es s) (hb : Accounted o es s b) :
    (∀ m, s.mappings.find? b.id = some m →
      m.Holds b ∧ ∃ e, es[b.id]? = some (.mmap e) ∧ s.Entered b.id e m) ∧
    (s.mappings.find? b.id = none → Run.Moved o es b.id) := by
  cases hb with
  | recorded hm hholds =>
    constructor
    · intro m' hm'
      cases hm.symm.trans hm'
      exact ⟨hholds, h.entries _ _ hm⟩
    · intro hnone
      cases hm.symm.trans hnone
  | moved hnone hmoved =>
    constructor
    · intro m' hm'
      cases hnone.symm.trans hm'
    · exact fun _ => hmoved

/-- An address that is resolved lies in a mapping of the capture. -/
theorem hit (h : Ledger o es s) (hs : s.Steady) {thread : Thread} {addr : Nat} {hit : Hit}
    (hhit : s.hitOf thread addr = some hit) :
    ∃ id e m, es[id]? = some (.mmap e) ∧ s.Entered id e m ∧ m.Contains addr ∧
      s.images.nameOf? hit.location.image = some e.filename ∧
      hit.location.offset = wrap (addr - m.start + m.pgoff) := by
  obtain ⟨b, hb, hc, m, hm, hlocation⟩ := Session.block_of_hitOf hs hhit
  obtain ⟨hholds, e, he, hentered⟩ := (h.account (h.spaceOf thread.pid b hb)).1 m hm
  rw [hlocation]
  exact ⟨b.id, e, m, he, hentered, hholds.contains hc, hentered.image, hholds.fileOffset hc⟩

end Ledger

namespace Run

/-- **Every attribution is traceable to one record.** Whatever records a run was fed, and whatever
became of them: a region of the space of a process lies in the mapping on record under its number,
which is that of the record of this number, at the file offsets of the mapping; and if there is none
on record, then that record was a mapping that failed since its synthetic start lay elsewhere in its
page. So an address that is resolved lies in a mapping of the capture, and the answer names the file
of this mapping, and the offset of the address in it. -/
theorem attribution_traceable (o : Options) (es : List Event) :
    let s := ((start o).through es).session
    (∀ pid space slot region, s.processes.get? pid = some space →
      space.regionAt? slot = some region →
        (∀ m, s.mappings.find? region.id = some m → m.Holds region ∧
          ∃ e, es[region.id]? = some (.mmap e) ∧ s.Entered region.id e m) ∧
        (s.mappings.find? region.id = none → Moved o es region.id)) ∧
    ∀ addr thread hit, (s.resolve addr thread).answer = some hit →
      ∃ id e m, es[id]? = some (.mmap e) ∧ s.Entered id e m ∧ m.Contains addr ∧
        s.images.nameOf? hit.location.image = some e.filename ∧
        hit.location.offset = wrap (addr - m.start + m.pgoff) := by
  intro s
  have hledger : Ledger o es s := .through o es
  constructor
  · intro pid space slot region hspace hregion
    have hb := hledger.regions.of_get? hspace _ (Space.mem_blocks_of_regionAt? hregion)
    simpa only [Region.bare_id, Mapping.holds_bare] using hledger.account hb
  · intro addr thread hit hhit
    exact hledger.hit (steady_through (.start o) es) hhit

/-- A mapping is carved, and the process forks; then a mapping fails since its synthetic start lies
elsewhere in its page. The piece behind the cut, as the child has it, goes back to the mapping that
was carved, and so does an address in it. The region that the failed mapping left goes back to no
mapping on record. -/
theorem attribution_traceable_carved_and_forked :
    let o : Options := ⟨true, Decimal.ofCount 95, 0⟩
    let es : List Event := [.comm ⟨7, 7, "seven"⟩,
      .mmap ⟨7, 7, 0x10000, 0x3000, 0x2000, "a", false⟩,
      .mmap ⟨7, 7, 0x11000, 0x1000, 0, "b", false⟩, .fork ⟨8, 7, 8, 7⟩,
      .mmap ⟨7, 7, 0x20123, 0x1000, 0, "c", false⟩]
    let s := ((start o).through es).session
    let behind : Region := ⟨0x12000, 0x1000, 0x2000, 1, 0x4000, top - 0x3000⟩
    let carved : Mapping := ⟨7, 0, 0x10000, 0x3000, 0x2000, 0⟩
    (s.processes.get? 8).bind (fun space => space.regionAt? 2) = some behind ∧
      s.mappings.find? 1 = some carved ∧ carved.Holds behind ∧
      (s.processes.get? 7).bind (fun space => space.regionAt? 3) =
        some ⟨0x20123, 0x1000, 0x3000, 4, 0, top - 0x4000⟩ ∧
      s.mappings.find? 4 = none ∧ Moved o es 4 ∧
      (s.resolve 0x12010 ⟨8, 8⟩).answer = some ⟨0x2010, ⟨0, 0x4010⟩⟩ ∧
      ∃ id e m, es[id]? = some (.mmap e) ∧ s.Entered id e m ∧ m.Contains 0x12010 ∧
        s.images.nameOf? 0 = some e.filename ∧ wrap (0x12010 - m.start + m.pgoff) = 0x4010 := by
  intro o es s behind carved
  obtain ⟨hregions, haddresses⟩ := attribution_traceable o es
  have hbehind : (s.processes.get? 8).bind (fun space => space.regionAt? 2) = some behind := by
    decide +kernel
  have hlost : (s.processes.get? 7).bind (fun space => space.regionAt? 3) =
      some ⟨0x20123, 0x1000, 0x3000, 4, 0, top - 0x4000⟩ := by decide +kernel
  have hcarved : s.mappings.find? 1 = some carved := by decide +kernel
  have hnone : s.mappings.find? 4 = none := by decide +kernel
  have hhit : (s.resolve 0x12010 ⟨8, 8⟩).answer = some ⟨0x2010, ⟨0, 0x4010⟩⟩ := by decide +kernel
  obtain ⟨child, hchild, hpiece⟩ := Option.bind_eq_some_iff.1 hbehind
  obtain ⟨parent, hparent, hfailed⟩ := Option.bind_eq_some_iff.1 hlost
  obtain ⟨hholds, -⟩ := (hregions 8 child 2 _ hchild hpiece).1 carved hcarved
  have hmoved := (hregions 7 parent 3 _ hparent hfailed).2 hnone
  obtain ⟨id, e, m, he, hentered, hcontains, hname, hoffset⟩ := haddresses _ _ _ hhit
  exact ⟨hbehind, hcarved, hholds, hlost, hnone, hmoved, hhit, id, e, m, he, hentered, hcontains,
    hname, hoffset.symm⟩

end Run
end Unslide
