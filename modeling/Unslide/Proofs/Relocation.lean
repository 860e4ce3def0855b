import Mathlib.Data.Int.ModEq
import Unslide.Proofs.Run
import Unslide.Proofs.Space.Relocation

/-!
# Unslide.Proofs.Relocation

A remapped capture does not tell where its mappings really lay. A relocation shifts every mapping of
a capture by a number of pages of its own, so that different mapped addresses stay different, and
replaces the addresses in its samples by their images. The relocated capture has the same output as
the capture: the same records and lines, counters and mappings without samples.

* `Relocation`, `Relocated`: the maps that are allowed, and what they make of a capture.
* `hitOf_relocate`, `samplesMatch_relocate`, `resolution_eq`: one sample.
* `Relocates.first`, `Relocates.behind`: one record.
* `Relocates.capture`, `relocation_invisible`: a whole capture.
-/

namespace Unslide

/-! ## Relocated captures -/

def Mmap.Holds (e : Mmap) (addr : Nat) : Prop := e.start ≤ addr ∧ addr < e.start + e.len

/-- The addresses of all mappings of a capture. -/
def mappedIn (es : List Event) : Set Nat := {a | ∃ m, Event.mmap m ∈ es ∧ m.Holds a}

/-- The map shifts every mapping by whole pages, keeps mapped addresses apart, and neither they nor
their images are null or markers. -/
structure Relocation (page : Nat) (φ : Nat → Nat) (es : List Event) : Prop where
  shift : ∀ m, Event.mmap m ∈ es → ∃ k : Int, ∀ a, m.Holds a → (φ a : Int) = a + k * page
  injOn : Set.InjOn φ (mappedIn es)
  range : ∀ a ∈ mappedIn es, (1 ≤ a ∧ a < firstMarker) ∧ 1 ≤ φ a ∧ φ a < firstMarker

def Mmap.relocate (φ : Nat → Nat) (e : Mmap) : Mmap := { e with start := φ e.start }

/-- A branch between the images of its addresses. Padding stays padding. -/
def Branch.relocate (φ : Nat → Nat) (b : Branch) : Branch :=
  if b.isNull then b else { b with source := φ b.source, target := φ b.target }

/-- The image of a frame. Markers stay markers. -/
def frameImage (φ : Nat → Nat) (value : Nat) : Nat := if isMarker value then value else φ value

def Sample.relocate (φ : Nat → Nat) (e : Sample) : Sample :=
  { e with
    ip := φ e.ip
    callchain := e.callchain.map (frameImage φ)
    branches := e.branches.map (Branch.relocate φ) }

def Event.relocate (φ : Nat → Nat) : Event → Event
  | .mmap e => .mmap (e.relocate φ)
  | .sample e => .sample (e.relocate φ)
  | e => e

/-- What a map makes of a capture. Of a mapping that is the very first record the offset is an
address, too: it is replaced by its image if it lies in the mapping, and else by any value that does
not lie in the image of the mapping. -/
inductive Relocated (φ : Nat → Nat) : List Event → List Event → Prop where
  | nil : Relocated φ [] []
  | mapping {e : Mmap} {pgoff : Nat} {rest : List Event} :
      (e.Holds e.pgoff → pgoff = φ e.pgoff) →
      (¬ e.Holds e.pgoff → ¬ (e.relocate φ).Holds pgoff) →
      Relocated φ (.mmap e :: rest)
        (.mmap { e.relocate φ with pgoff := pgoff } :: rest.map (Event.relocate φ))
  | other {e : Event} {rest : List Event} : (∀ m, e ≠ .mmap m) →
      Relocated φ (e :: rest) ((e :: rest).map (Event.relocate φ))

variable {φ : Nat → Nat} {X : Set Nat} {page : Nat}

theorem Relocation.rigid {es : List Event} (h : Relocation page φ es) (hpage : page ≠ 0) {m : Mmap}
    (hm : Event.mmap m ∈ es) (hpos : 0 < m.len) : Rigid φ (mappedIn es) page m.start m.len := by
  obtain ⟨k, hk⟩ := h.shift m hm
  have hstart := hk m.start ⟨Nat.le_refl _, by omega⟩
  constructor
  · intro n hn
    exact ⟨m, hm, by simp only [Mmap.Holds]; omega⟩
  · intro n hn
    have := hk (m.start + n) ⟨by omega, by omega⟩
    omega
  · have hmod : (φ m.start : Int) % page = (m.start : Int) % page := by
      rw [hstart, Int.add_mul_emod_self_right]
    simp only [pageOffset, if_neg hpage]
    exact_mod_cast hmod

/-- The map is rigid on the mappings among some records, but for the empty ones. -/
def RigidOn (φ : Nat → Nat) (X : Set Nat) (page : Nat) (es : List Event) : Prop :=
  ∀ m, Event.mmap m ∈ es → 0 < m.len → Rigid φ X page m.start m.len

theorem RigidOn.tail {e : Event} {es : List Event} (h : RigidOn φ X page (e :: es)) :
    RigidOn φ X page es := by
  intro m hm hpos
  exact h m (List.mem_cons_of_mem e hm) hpos

theorem Relocation.rigidOn {es : List Event} (h : Relocation page φ es)
    (hp : isPowerOfTwo page = true) : RigidOn φ (mappedIn es) (pageSize page) es := by
  have hne : page ≠ 0 := by
    intro hzero
    rw [hzero] at hp
    cases hp
  intro m hm hpos
  rw [pageSize, if_pos hp]
  exact h.rigid hne hm hpos

/-! ## Mappings -/

/-- Two mappings for record `id` of a capture, the second one relocated: the request that it makes
is the relocated request of the first. -/
structure MappingsMatch (φ : Nat → Nat) (X : Set Nat) (page id : Nat) (e f : Mmap) : Prop where
  same : f = { e with start := f.start, pgoff := f.pgoff }
  request : (f.geometry id).request id = ((e.geometry id).request id).relocate φ
  rigid : Rigid φ X page (e.geometry id).start (e.geometry id).len

theorem mappingsMatch_of_ne_zero {e : Mmap} {id : Nat} (hid : id ≠ 0)
    (h : Rigid φ X page e.start e.len) : MappingsMatch φ X page id e (e.relocate φ) where
  same := rfl
  request := by
    simp only [Mmap.geometry_of_ne_zero _ hid]
    rfl
  rigid := by
    rw [Mmap.geometry_of_ne_zero _ hid]
    exact h

/-- The very first mapping starts early if and only if the relocated one does, and then both are
taken to start at the same distance from their first address. -/
theorem mappingsMatch_first {e : Mmap} {pgoff : Nat}
    (h : Rigid φ X page e.start e.len) (hin : e.Holds e.pgoff → pgoff = φ e.pgoff)
    (hout : ¬ e.Holds e.pgoff → ¬ (e.relocate φ).Holds pgoff) :
    MappingsMatch φ X page 0 e { e.relocate φ with pgoff := pgoff } := by
  by_cases hearly : e.StartsEarly
  · obtain ⟨hlt, hlen⟩ := id hearly
    have hholds : e.Holds e.pgoff := ⟨Nat.le_of_lt hlt, by omega⟩
    have hmap := h.map_eq hholds.1 hholds.2
    have hdist : φ e.pgoff - φ e.start = e.pgoff - e.start := by omega
    have hearly' : Mmap.StartsEarly { e.relocate φ with pgoff := φ e.pgoff } := by
      simp only [Mmap.StartsEarly, Mmap.relocate]
      omega
    rw [hin hholds]
    have hpart : Rigid φ X page (e.start + (e.pgoff - e.start)) (e.len - (e.pgoff - e.start)) :=
      h.part (by omega) (by omega)
    rw [Nat.add_sub_cancel' hholds.1] at hpart
    refine ⟨rfl, ?_, ?_⟩
    · simp only [Mmap.geometry, if_true, if_pos hearly, if_pos hearly']
      simp only [Geometry.request, Request.relocate, Mmap.relocate, hdist]
    · simpa only [Mmap.geometry, if_true, if_pos hearly] using hpart
  · have hlate : ¬ Mmap.StartsEarly { e.relocate φ with pgoff := pgoff } := by
      by_cases hholds : e.Holds e.pgoff
      · have hstart : e.pgoff = e.start := by
          simp only [Mmap.StartsEarly, Mmap.Holds] at hearly hholds
          omega
        rw [hin hholds, hstart]
        simp only [Mmap.StartsEarly, Mmap.relocate]
        omega
      · have hnot := hout hholds
        simp only [Mmap.StartsEarly, Mmap.Holds, Mmap.relocate] at hnot ⊢
        omega
    refine ⟨rfl, ?_, ?_⟩
    · simp only [Mmap.geometry, if_true, if_neg hearly, if_neg hlate]
      rfl
    · simpa only [Mmap.geometry, if_true, if_neg hearly] using h

namespace Session

/-! ## Samples -/

variable {s t : Session} {thread : Thread} {look look' : Nat → Option Hit}

/-- An address that is found lies in a mapping, and its image is found at the same location and
written as the same address. -/
theorem hitOf_relocate (h : Twin (Space.Relocates φ X) s t) (hs : s.options.remap = true)
    (ht : t.options.remap = true) {addr : Nat} {hit : Hit} (hhit : s.hitOf thread addr = some hit) :
    addr ∈ X ∧ t.hitOf thread (φ addr) = some hit ∧
      (s.spaceOf thread.pid).attribution addr = (t.spaceOf thread.pid).attribution (φ addr) := by
  have hspace := h.spaceOf thread.pid
  have hsound := h.steady.1.sound_spaceOf thread.pid
  have hsound' := h.steady.2.sound_spaceOf thread.pid
  have hfound : (s.finding (s.spaceOf thread.pid) addr).hit? = some hit := by
    rw [← hhit, hitOf, answer_resolve]
    rfl
  by_cases hin : ∃ b ∈ (s.spaceOf thread.pid).blocks, b.Contains addr
  · obtain ⟨b, hb, hc⟩ := hin
    have hc' := contains_relocate (hspace.rigid b hb) hc
    refine ⟨(hspace.rigid b hb).mem hc.1 hc.2, ?_, hspace.attribution hsound hsound' hb hc⟩
    rw [finding_of_contains h.steady.1 h.keeps.1 hsound (h.steady.1.page_spaceOf _) hb hc] at hfound
    rw [hitOf, answer_resolve, ← Session.spaceOf,
      finding_of_contains h.steady.2 h.keeps.2 hsound' (h.steady.2.page_spaceOf _)
        (hspace.mem_relocate hb) hc']
    have hrec := h.records b.id
    cases hm : s.mappings.find? b.id with
    | none =>
      rw [hm] at hfound
      cases hfound
    | some m =>
      rw [hm, Option.map_some, Option.map_eq_some_iff] at hrec
      obtain ⟨n, hn, hrep⟩ := hrec
      have himage : n.image = m.image := congrArg Prod.fst hrep
      have hid : (b.relocate φ).id = b.id := rfl
      have hoffset : (b.relocate φ).fileOffset (φ addr) = b.fileOffset addr := by
        simp only [Region.fileOffset, Region.relocate_start, hspace.sub_eq hb hc]
        rfl
      rw [hm] at hfound
      rw [hid, hn, ← hfound]
      simp only [Finding.hit?, shown, hs, ht, himage, hoffset, hspace.placeOf_eq hb hc,
        Bool.true_eq_false, if_false]
  · rw [finding_of_free hsound fun b hb hc => hin ⟨b, hb, hc⟩] at hfound
    cases hfound

variable {A : Nat → Nat → Prop}

/-- A complete sample matches the relocated one, if each address that is found matches its image. -/
theorem samplesMatch_relocate (hinj : Set.InjOn φ X)
    (hrange : ∀ a ∈ X, (1 ≤ a ∧ a < firstMarker) ∧ 1 ≤ φ a ∧ φ a < firstMarker)
    (hA : ∀ a, (look a).isSome = true → a ∈ X ∧ A a (φ a)) {e : Sample} {command : Option Nat}
    (hc : (resolution look command e).2.complete = true) : SamplesMatch A e (e.relocate φ) := by
  simp only [resolution, Bool.and_eq_true] at hc
  obtain ⟨⟨hip, hframes⟩, hstack⟩ := hc
  simp only [frames, List.all_eq_true] at hframes
  have hown := hA e.ip hip
  have hownr := hrange e.ip hown.1
  refine ⟨rfl, hown.2, ?_, ?_⟩
  · simp only [Sample.relocate, List.forall₂_map_right_iff]
    refine List.forall₂_same.2 fun v hv => ?_
    cases hm : isMarker v with
    | true =>
      rw [frameImage, if_pos hm]
      exact .marker hm
    | false =>
      rw [frameImage, hm, if_neg Bool.false_ne_true]
      by_cases heq : v = e.ip
      · rw [heq]
        exact .own (isMarker_eq_false_iff.2 hownr.1.2) (isMarker_eq_false_iff.2 hownr.2.2)
      · have hlooked : v ∈ lookedUp e.ip e.callchain := by
          simp [lookedUp, hv, hm, heq]
        have hfound := hA v (hframes v hlooked)
        refine .frame hm (isMarker_eq_false_iff.2 (hrange v hfound.1).2.2) heq ?_ hfound.2
        exact fun himage => heq (hinj hfound.1 hown.1 himage)
  · simp only [Sample.relocate, List.forall₂_map_right_iff]
    refine List.forall₂_same.2 fun b hb => ?_
    cases hnull : b.isNull with
    | true =>
      rw [Branch.relocate, if_pos hnull]
      exact .padding hnull
    | false =>
      obtain ⟨hsource, htarget⟩ := isSome_of_stack hstack b hb hnull
      have hs := hA b.source hsource
      rw [Branch.relocate, hnull, if_neg Bool.false_ne_true]
      refine .taken hnull ?_ rfl hs.2 (hA b.target htarget).2
      -- the image of a branch is not padding, because its source is not null
      have hpos := (hrange b.source hs.1).2.1
      simp only [Branch.isNull, Branch.null, beq_eq_false_iff_ne, ne_eq, Branch.mk.injEq, not_and]
      omega

def FoundAlike (look look' : Nat → Option Hit) (a b : Nat) : Prop :=
  ∃ hit, look a = some hit ∧ look' b = some hit

theorem written_eq {a b : Nat} (h : FoundAlike look look' a b) :
    written look' b = written look a := by
  obtain ⟨hit, ha, hb⟩ := h
  simp only [written, ha, hb]

theorem values_eq (hA : ∀ a b, A a b → FoundAlike look look' a b) {p q : Nat} {vs ws : List Nat}
    (h : List.Forall₂ (FramesMatch A p q) vs ws) (ip : Nat) :
    ws.map (rewritten look' ip q) = vs.map (rewritten look ip p) := by
  induction h with
  | nil => rfl
  | @cons v w vs ws hvw _ ih =>
    rw [List.map_cons, List.map_cons, ih]
    congr 1
    cases hvw with
    | marker hm => simp only [rewritten, hm, if_true]
    | own hp hq => simp only [rewritten, hp, hq, if_true, Bool.false_eq_true, if_false]
    | frame hv hw hne hne' ha =>
      simp only [rewritten, hv, hw, hne, hne', Bool.false_eq_true, if_false, written_eq (hA _ _ ha)]

theorem jumps_eq (hA : ∀ a b, A a b → FoundAlike look look' a b) {bs cs : List Branch}
    (h : List.Forall₂ (BranchesMatch A) bs cs) (htaken : ∀ b ∈ bs, b.isNull = false) :
    (jumps look' cs).stack = (jumps look bs).stack := by
  induction h with
  | nil => rfl
  | @cons b c bs cs hbc _ ih =>
    have hb := htaken b (by simp)
    have hrest := ih fun d hd => htaken d (by simp [hd])
    cases hbc with
    | padding hnull =>
      rw [hb] at hnull
      cases hnull
    | taken _ _ hmis hsource htarget =>
      obtain ⟨source, hs, hs'⟩ := hA _ _ hsource
      obtain ⟨target, ht, ht'⟩ := hA _ _ htarget
      simp only [jumps, hs, hs', ht, ht', hmis, hrest]

theorem padding_eq {bs cs : List Branch} (h : List.Forall₂ (BranchesMatch A) bs cs)
    (hnull : ∀ b ∈ bs, b.isNull = true) : cs = bs := by
  induction h with
  | nil => rfl
  | @cons b c bs cs hbc _ ih =>
    rw [ih fun d hd => hnull d (by simp [hd])]
    cases hbc with
    | padding _ => rfl
    | taken hb _ _ _ _ =>
      rw [hnull b (by simp)] at hb
      cases hb

theorem stack_eq (hA : ∀ a b, A a b → FoundAlike look look' a b) {bs cs : List Branch}
    (h : List.Forall₂ (BranchesMatch A) bs cs)
    (hresolved : (stack look bs).resolved.isSome = true) :
    (stack look' cs).stack = (stack look bs).stack := by
  obtain ⟨htaken, hpadding⟩ := taken_matched h
  have hstray := (stray_of_stack hresolved).1
  have hjumps := jumps_eq hA htaken fun b hb => by
    simpa using List.mem_takeWhile_imp hb
  have hpad := padding_eq hpadding fun b hb => by
    simpa using List.find?_eq_none.1 hstray b hb
  simp only [stack, hstray, hjumps, hpad]

/-- Complete samples that match, each address found alike, are written as the same sample. -/
theorem resolution_eq (hA : ∀ a b, A a b → FoundAlike look look' a b) {e f : Sample}
    (h : SamplesMatch A e f) {command : Option Nat}
    (hc : (resolution look command e).2.complete = true) :
    (resolution look' command f).1 = (resolution look command e).1 := by
  simp only [resolution, Bool.and_eq_true] at hc
  have hip := written_eq (hA _ _ h.ip)
  have hvalues := values_eq hA h.callchain (written look e.ip)
  have hpid : f.pid = e.pid := congrArg Thread.pid h.thread
  have htid : f.tid = e.tid := congrArg Thread.tid h.thread
  simp only [resolution, frames, hip, hvalues, stack_eq hA h.branches hc.2, hpid, htid]

end Session

namespace Run

/-! ## Runs -/

open Session (FoundAlike)

variable {r r' : Run}

theorem valid_of_placed {s : Session} (h : s.Steady) {e : Mmap} {id : Nat}
    (hok : (s.placed e id).answer = .ok ()) : ((e.geometry id).request id).Valid := by
  have hlaw := (Session.placed_obeys h e id).law
  rw [hok] at hlaw
  cases hlaw with
  | carved hv _ _ _ _ _ => exact hv
  | settled hv _ _ => exact hv

theorem len_geometry_le (e : Mmap) (id : Nat) : (e.geometry id).len ≤ e.len := by
  simp only [Mmap.geometry]
  split
  · split
    · exact Nat.sub_le _ _
    · exact Nat.le_refl _
  · exact Nat.le_refl _

theorem len_pos_of_placed {s : Session} (h : s.Steady) {e : Mmap} {id : Nat}
    (hok : (s.placed e id).answer = .ok ()) : 0 < e.len :=
  Nat.lt_of_lt_of_le (Nat.pos_of_ne_zero (valid_of_placed h hok).1) (len_geometry_le e id)

/-- The interval of a rigid request that is mapped below the markers ends below the top. -/
theorem valid_relocate (hrange : ∀ a ∈ X, φ a < firstMarker) {q : Request}
    (hq : Rigid φ X page q.start q.size) (hv : q.Valid) : (q.relocate φ).Valid := by
  have hpos := Nat.pos_of_ne_zero hv.1
  have hlast := hrange _ (hq.mapped (q.size - 1) (by omega))
  rw [hq.shift _ (by omega)] at hlast
  have htop : firstMarker ≤ top := Nat.sub_le _ _
  refine ⟨hv.1, ?_⟩
  simp only [Request.stop, Request.relocate_start, Request.relocate_size]
  omega

/-- Twin runs, both of which remap, and a map that takes the addresses of the one to those of the
other. -/
structure Relocates (φ : Nat → Nat) (X : Set Nat) (r r' : Run) : Prop where
  twin : Twin (Space.Relocates φ X) r r'
  remap : r.session.options.remap = true
  remap' : r'.session.options.remap = true
  injOn : Set.InjOn φ X
  range : ∀ a ∈ X, (1 ≤ a ∧ a < firstMarker) ∧ 1 ≤ φ a ∧ φ a < firstMarker

namespace Relocates

theorem next (h : Relocates φ X r r') {e f : Event}
    (hnext : Twin (Space.Relocates φ X) (r.feed e).state (r'.feed f).state) :
    Relocates φ X (r.feed e).state (r'.feed f).state where
  twin := hnext
  remap := by rw [options_feed, h.remap]
  remap' := by rw [options_feed, h.remap']
  injOn := h.injOn
  range := h.range

/-- A space that grants a mapping grants the relocated one. -/
theorem placed (h : Relocates φ X r r') {e f : Mmap}
    (hef : MappingsMatch φ X r.session.processes.page r.count e f)
    (hok : (r.session.placed e r.count).answer = .ok ()) :
    (r'.session.placed f r.count).answer = .ok () ∧
      Space.Relocates φ X (r.session.placed e r.count).state
        (r'.session.placed f r.count).state := by
  obtain ⟨hs, ht⟩ := h.twin.session.steady
  have hpid : f.pid = e.pid := by rw [hef.same]
  have hvalid := valid_relocate (fun a ha => (h.range a ha).2.2) hef.rigid (valid_of_placed hs hok)
  have hrigid := hef.rigid
  rw [← hs.page_spaceOf e.pid] at hrigid
  rw [Session.placed, Session.placed, hpid, hef.request]
  exact (h.twin.session.spaceOf e.pid).reserve (hs.sound_spaceOf e.pid) (ht.sound_spaceOf e.pid)
    h.injOn hrigid hvalid hok

/-- A mapping is written as the relocated one is. -/
theorem mapping (h : Relocates φ X r r') {e f : Mmap}
    (hef : MappingsMatch φ X r.session.processes.page r.count e f)
    (hok : (r.session.placed e r.count).answer = .ok ()) :
    (r'.feed (.mmap f)).answer = (r.feed (.mmap e)).answer ∧
      Relocates φ X (r.feed (.mmap e)).state (r'.feed (.mmap f)).state := by
  obtain ⟨hs, ht⟩ := h.twin.session.steady
  obtain ⟨hk, hk'⟩ := h.twin.session.keeps
  obtain ⟨hok', hrel⟩ := h.placed hef hok
  have hpid : f.pid = e.pid := by rw [hef.same]
  have hname : f.filename = e.filename := by rw [hef.same]
  have hkernel : f.kernel = e.kernel := by rw [hef.same]
  refine ⟨?_, h.next (h.twin.feed (.mmap hpid hname hkernel hok hok' hrel)).2⟩
  obtain ⟨-, m, hm, hanswer⟩ := Session.register_granted hs hk hok
  obtain ⟨-, m', hm', hanswer'⟩ := Session.register_granted ht hk' hok'
  have hplace : m' = m := by
    have hstart : (((f.geometry r.count).request r.count).block m').start =
        ((((e.geometry r.count).request r.count).block m).relocate φ).start :=
      congrArg Request.start hef.request
    have hsound := (Session.placed_obeys ht f r.count).sound
    have heq := hsound.block_eq_of_start_eq hm' (hrel.mem_relocate hm) hstart
    exact congrArg Region.place heq
  have hlen : (f.geometry r.count).len = (e.geometry r.count).len :=
    congrArg Request.size hef.request
  have hpgoff : (f.geometry r.count).pgoff = (e.geometry r.count).pgoff :=
    congrArg Request.base hef.request
  have hwritten : ∀ len pgoff : Nat, ({ f with start := m, len := len, pgoff := pgoff } : Mmap) =
      { e with start := m, len := len, pgoff := pgoff } := by
    intro len pgoff
    rw [hef.same]
  simp only [feed, h.twin.count, hanswer, hanswer', h.remap, h.remap', Bool.true_eq_false, if_false,
    hplace, hlen, hpgoff, hwritten]

/-- A complete sample is written as the relocated one is. -/
theorem sample (h : Relocates φ X r r') {e : Sample}
    (hc : (r.session.sample e).answer.2.complete = true) :
    (r'.feed (.sample (e.relocate φ))).answer = (r.feed (.sample e)).answer ∧
      Relocates φ X (r.feed (.sample e)).state (r'.feed (.sample (e.relocate φ))).state := by
  rw [Session.answer_sample] at hc
  let A : Nat → Nat → Prop := fun a b =>
    FoundAlike (r.session.hitOf e.thread) (r'.session.hitOf e.thread) a b ∧
      (r.session.spaceOf e.pid).attribution a = (r'.session.spaceOf e.pid).attribution b
  have hA : ∀ a, (r.session.hitOf e.thread a).isSome = true → a ∈ X ∧ A a (φ a) := by
    intro a ha
    obtain ⟨hit, hhit⟩ := Option.isSome_iff_exists.1 ha
    obtain ⟨hin, hhit', hatt⟩ := Session.hitOf_relocate h.twin.session h.remap h.remap' hhit
    exact ⟨hin, ⟨hit, hhit, hhit'⟩, hatt⟩
  have hmatch : Session.SamplesMatch A e (e.relocate φ) :=
    Session.samplesMatch_relocate h.injOn h.range hA hc
  have hattributed := hmatch.imp fun a b hab => hab.2
  have hwritten := Session.resolution_eq (fun a b hab => hab.1) hmatch hc
  have hanswer : (r'.session.sample (e.relocate φ)).answer = (r.session.sample e).answer := by
    refine Prod.ext ?_ (h.twin.session.sample hattributed).1
    rw [Session.answer_sample, Session.answer_sample, h.twin.session.commands]
    exact hwritten
  refine ⟨?_, h.next (h.twin.feed (.sample hattributed)).2⟩
  simp only [feed, hanswer]

/-- A record that is no mapping is written as the relocated one is, if it is no sample that is not
complete. -/
theorem other (h : Relocates φ X r r') {e : Event} (hother : ∀ m, e ≠ .mmap m)
    {found : Option ResolvedSample} (hfound : (r.feed e).answer.2 = .ok found)
    (hcomplete : ∀ x ∈ found.toList, x.complete = true) :
    (r'.feed (e.relocate φ)).answer = (r.feed e).answer ∧
      Relocates φ X (r.feed e).state (r'.feed (e.relocate φ)).state := by
  cases e with
  | mmap m => exact absurd rfl (hother m)
  | fork e => exact ⟨rfl, h.next (h.twin.feed (.fork e)).2⟩
  | exit e => exact ⟨rfl, h.next (h.twin.feed (.exit e)).2⟩
  | comm e => exact ⟨rfl, h.next (h.twin.feed (.comm e)).2⟩
  | sample e =>
    cases hfound
    exact h.sample (hcomplete _ (by simp))

/-- Behind the very first record, a record is written as the relocated one is. -/
theorem behind (h : Relocates φ X r r') {e : Event} {rest : List Event} (hcount : r.count ≠ 0)
    (hrigid : RigidOn φ X (pageSize r.session.options.alignment) (e :: rest))
    {found : Option ResolvedSample} (hfound : (r.feed e).answer.2 = .ok found)
    (hcomplete : ∀ x ∈ found.toList, x.complete = true) :
    (r'.feed (e.relocate φ)).answer = (r.feed e).answer ∧
      Relocates φ X (r.feed e).state (r'.feed (e.relocate φ)).state := by
  by_cases hmapping : ∃ m, e = .mmap m
  · obtain ⟨m, rfl⟩ := hmapping
    have hok := placed_of_feed_ok hfound
    rw [← h.twin.session.steady.1.page] at hrigid
    have hm := hrigid m (by simp) (len_pos_of_placed h.twin.session.steady.1 hok)
    exact h.mapping (mappingsMatch_of_ne_zero hcount hm) hok
  · refine h.other ?_ hfound hcomplete
    intro m hm
    exact hmapping ⟨m, hm⟩

/-- The very first record is written as what a relocated capture has in its place. -/
theorem first (h : Relocates φ X r r') {e : Event} {rest es' : List Event}
    (hes : Relocated φ (e :: rest) es') (hcount : r.count = 0)
    (hrigid : RigidOn φ X (pageSize r.session.options.alignment) (e :: rest))
    {found : Option ResolvedSample} (hfound : (r.feed e).answer.2 = .ok found)
    (hcomplete : ∀ x ∈ found.toList, x.complete = true) :
    ∃ f, es' = f :: rest.map (Event.relocate φ) ∧ (r'.feed f).answer = (r.feed e).answer ∧
      Relocates φ X (r.feed e).state (r'.feed f).state := by
  cases hes with
  | @mapping m pgoff _ hin hout =>
    have hok := placed_of_feed_ok hfound
    rw [← h.twin.session.steady.1.page] at hrigid
    have hm := hrigid m (by simp) (len_pos_of_placed h.twin.session.steady.1 hok)
    have hmatch := mappingsMatch_first hm hin hout
    rw [← hcount] at hmatch
    exact ⟨_, rfl, h.mapping hmatch hok⟩
  | other hother => exact ⟨_, rfl, h.other hother hfound hcomplete⟩

/-- Behind the very first record, all records are written as the relocated ones are. -/
theorem feedAll (h : Relocates φ X r r') {es events : List Event} {samples : List ResolvedSample}
    (hcount : r.count ≠ 0) (hrigid : RigidOn φ X (pageSize r.session.options.alignment) es)
    (hok : (r.feedAll es).answer = .ok (events, samples))
    (hcomplete : ∀ x ∈ samples, x.complete = true) :
    (r'.feedAll (es.map (Event.relocate φ))).answer = (r.feedAll es).answer ∧
      Twin (Space.Relocates φ X) (r.feedAll es).state
        (r'.feedAll (es.map (Event.relocate φ))).state := by
  induction es generalizing r r' events samples with
  | nil => exact ⟨rfl, h.twin⟩
  | cons e rest ih =>
    obtain ⟨found, tail, more, hfound, hrest, rfl, rfl⟩ := feedAll_cons_eq_ok hok
    obtain ⟨hfirst, hnext⟩ :=
      h.behind hcount hrigid hfound fun x hx => hcomplete x (List.mem_append_left _ hx)
    refine feedAll_cons_alike hfound hfirst (ih hnext ?_ ?_ hrest ?_)
    · rw [count_feed]
      exact Nat.succ_ne_zero _
    · rw [options_feed]
      exact hrigid.tail
    · intro x hx
      exact hcomplete x (List.mem_append_right _ hx)

/-- A whole capture is written as the relocated one is. -/
theorem capture (h : Relocates φ X r r') {es es' events : List Event}
    {samples : List ResolvedSample} (hes : Relocated φ es es') (hcount : r.count = 0)
    (hrigid : RigidOn φ X (pageSize r.session.options.alignment) es)
    (hok : (r.feedAll es).answer = .ok (events, samples))
    (hcomplete : ∀ x ∈ samples, x.complete = true) :
    (r'.feedAll es').answer = (r.feedAll es).answer ∧
      Twin (Space.Relocates φ X) (r.feedAll es).state (r'.feedAll es').state := by
  cases es with
  | nil =>
    cases hes
    exact ⟨rfl, h.twin⟩
  | cons e rest =>
    obtain ⟨found, tail, more, hfound, hrest, rfl, rfl⟩ := feedAll_cons_eq_ok hok
    obtain ⟨f, rfl, hfirst, hnext⟩ :=
      h.first hes hcount hrigid hfound fun x hx => hcomplete x (List.mem_append_left _ hx)
    refine feedAll_cons_alike hfound hfirst (hnext.feedAll ?_ ?_ hrest ?_)
    · rw [count_feed]
      exact Nat.succ_ne_zero _
    · rw [options_feed]
      exact hrigid.tail
    · intro x hx
      exact hcomplete x (List.mem_append_right _ hx)

end Relocates

end Run

namespace Replay

variable {o : Options} {es es' : List Event}

theorem run_eq_of_twin {R : Space → Space → Prop} {events : List Event}
    {samples : List ResolvedSample}
    (h : Run.Twin R ((Run.start o).feedAll es).state ((Run.start o).feedAll es').state)
    (hok : ((Run.start o).feedAll es).answer = .ok (events, samples))
    (hok' : ((Run.start o).feedAll es').answer = .ok (events, samples)) :
    (run o es').answer = (run o es).answer := by
  have hremapped : ((Run.start o).feedAll es').state.tally.remapped =
      ((Run.start o).feedAll es).state.tally.remapped := by
    rw [Run.remapped_feedAll, Run.remapped_feedAll]
  rw [run_of_ok hok, run_of_ok hok']
  obtain ⟨hsession, htally, -⟩ := h
  rw [hremapped] at htally
  simp only [ofRun, htally, hsession.images, hsession.commands, hsession.unsampled]

theorem feedAll_of_run {out : Replay} (h : (run o es).answer = .ok out) :
    ∃ samples, ((Run.start o).feedAll es).answer = .ok (out.events, samples) ∧
      ((∀ l ∈ out.lines, l.complete = true) → ∀ x ∈ samples, x.complete = true) := by
  obtain ⟨samples, hfed, hout⟩ := feedAll_of_run_ok h
  refine ⟨samples, hfed, fun hlines x hx => ?_⟩
  rw [hout] at hlines
  exact hlines _ (List.mem_map_of_mem hx)

/-- **Where mappings really lay does not show in a remapped capture.** Let a capture be remapped,
keeping the offsets of a page, and let all its samples be complete. Then every relocated capture has
the same result: the same records and lines, counters and mappings without samples. -/
theorem relocation_invisible {φ : Nat → Nat} {out : Replay}
    (hp : isPowerOfTwo o.alignment = true) (hremap : o.remap = true)
    (hφ : Relocation o.alignment φ es) (hes : Relocated φ es es')
    (hrun : (run o es).answer = .ok out) (hcomplete : ∀ l ∈ out.lines, l.complete = true) :
    (run o es').answer = .ok out := by
  obtain ⟨samples, hfed, hall⟩ := feedAll_of_run hrun
  have hk : o.Keeps := .inr hp
  have hstart : Run.Relocates φ (mappedIn es) (.start o) (.start o) :=
    ⟨.start hk hk (Space.Relocates.fresh _), hremap, hremap, hφ.injOn, hφ.range⟩
  obtain ⟨hanswer, hlast⟩ := hstart.capture hes rfl (hφ.rigidOn hp) hfed (hall hcomplete)
  rw [run_eq_of_twin hlast hfed (hanswer.trans hfed), hrun]

/-- The second mapping moves above the third one, and the kernel's text by one page. What is written
shows neither the one place nor the other. -/
theorem relocation_invisible_reordered :
    let φ : Nat → Nat := fun a => if a < 0x100 then a + 0x10 else if a < 0x220 then a + 0x200 else a
    let es : List Event :=
      [.mmap ⟨topId, 0, 0x10, 0x90, 0x30, "k", true⟩, .mmap ⟨1, 1, 0x200, 0x20, 0, "a", false⟩,
        .mmap ⟨1, 1, 0x300, 0x10, 1, "b", false⟩,
        .sample ⟨1, 1, 0x201, [top, 0x201, 0x302], [⟨0x200, 0x300, true⟩, .null]⟩]
    let es' : List Event :=
      [.mmap ⟨topId, 0, 0x20, 0x90, 0x40, "k", true⟩, .mmap ⟨1, 1, 0x400, 0x20, 0, "a", false⟩,
        .mmap ⟨1, 1, 0x300, 0x10, 1, "b", false⟩,
        .sample ⟨1, 1, 0x401, [top, 0x401, 0x302], [⟨0x400, 0x300, true⟩, .null]⟩]
    let o : Options := ⟨true, Decimal.ofCount 95, 0x10⟩
    ∃ out, (run o es).answer = .ok out ∧
      out.events =
        [.mmap ⟨topId, 0, 0, 0x70, 0, "k", true⟩, .mmap ⟨1, 1, 0x70, 0x20, 0, "a", false⟩,
          .mmap ⟨1, 1, 0x90, 0x10, 1, "b", false⟩,
          .sample ⟨1, 1, 0x71, [top, 0x71, 0x92], [⟨0x70, 0x90, true⟩, .null]⟩] ∧
      out.lines =
        [⟨⟨1, 1⟩, none, some ⟨"a", 1⟩, [⟨"b", 3⟩], [⟨⟨"a", 0⟩, ⟨"b", 1⟩, false⟩], true⟩] ∧
      Relocation o.alignment φ es ∧ Relocated φ es es' ∧
      (∀ l ∈ out.lines, l.complete = true) ∧ (run o es').answer = .ok out := by
  intro φ es es' o
  have hmapped : ∀ m, Event.mmap m ∈ es → (m.start = 0x10 ∧ m.len = 0x90) ∨
      (m.start = 0x200 ∧ m.len = 0x20) ∨ (m.start = 0x300 ∧ m.len = 0x10) := by
    simp [es]
  have himage : ∀ a, (a < 0x100 ∧ φ a = a + 0x10) ∨ (0x100 ≤ a ∧ a < 0x220 ∧ φ a = a + 0x200) ∨
      (0x220 ≤ a ∧ φ a = a) := by
    intro a
    simp only [φ]
    split <;> [skip; split] <;> omega
  have hφ : Relocation o.alignment φ es := by
    constructor
    · intro m hm
      rcases hmapped m hm with ⟨hs, hl⟩ | ⟨hs, hl⟩ | ⟨hs, hl⟩
      · refine ⟨1, fun a ⟨hge, hlt⟩ => ?_⟩
        have := himage a
        simp only [o]
        omega
      · refine ⟨0x20, fun a ⟨hge, hlt⟩ => ?_⟩
        have := himage a
        simp only [o]
        omega
      · refine ⟨0, fun a ⟨hge, hlt⟩ => ?_⟩
        have := himage a
        omega
    · rintro a ⟨m, hm, hge, hlt⟩ b ⟨n, hn, hge', hlt'⟩ hab
      have := hmapped m hm
      have := hmapped n hn
      have := himage a
      have := himage b
      omega
    · rintro a ⟨m, hm, hge, hlt⟩
      have hmarker : firstMarker = 0xfffffffffffff001 := by decide
      have := hmapped m hm
      have := himage a
      omega
  have hes : Relocated φ es es' :=
    .mapping (fun _ => rfl) fun hout => absurd ⟨by decide, by decide⟩ hout
  have hgiven : (run o es).answer.toOption.map (fun out => (out.events, out.lines)) = some
      ([.mmap ⟨topId, 0, 0, 0x70, 0, "k", true⟩, .mmap ⟨1, 1, 0x70, 0x20, 0, "a", false⟩,
        .mmap ⟨1, 1, 0x90, 0x10, 1, "b", false⟩,
        .sample ⟨1, 1, 0x71, [top, 0x71, 0x92], [⟨0x70, 0x90, true⟩, .null]⟩],
      [⟨⟨1, 1⟩, none, some ⟨"a", 1⟩, [⟨"b", 3⟩], [⟨⟨"a", 0⟩, ⟨"b", 1⟩, false⟩], true⟩]) := by
    decide +kernel
  obtain ⟨out, hrun, hout⟩ := exists_of_map_answer hgiven
  obtain ⟨hevents, hlines⟩ := Prod.mk.inj hout
  have hall : ∀ l ∈ out.lines, l.complete = true := by
    rw [hlines, List.forall_mem_singleton]
  exact ⟨out, hrun, hevents, hlines, hφ, hes, hall,
    relocation_invisible (by decide) rfl hφ hes hrun hall⟩

end Replay
end Unslide
