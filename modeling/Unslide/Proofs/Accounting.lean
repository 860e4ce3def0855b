import Unslide.Proofs.Provenance
import Unslide.Proofs.Session.Books

/-!
# Unslide.Proofs.Accounting

The hits of a whole run. Every look-up that a run makes is written down in its `log`, in order and
with its answer; what a run has counted for each mapping and marked on each image at any time is
what the log says, and a mapping is on record if and only if its record was taken.

* `state_lookupsOf`: the look-ups in the log are those that the run makes.
* `books_feed`, `isSome_find?_feed`: one more record.
* `hits_accounted`: the counters after any records.
-/

namespace Unslide

/-- The counters of a session are exact: they tell the look-ups in `log`, for the mappings with the
numbers `taken`. -/
structure Session.Accounted (s : Session) (log : List Lookup) (taken : Nat → Prop) : Prop where
  recorded : ∀ id, (∃ m, s.mappings.find? id = some m) ↔ taken id
  samples : ∀ id m, s.mappings.find? id = some m → m.samples = log.countP (fun l => l.Finds id)
  ascending : s.unsampled.Pairwise (· < ·)
  unsampled : ∀ id, id ∈ s.unsampled ↔ taken id ∧ log.countP (fun l => l.Finds id) = 0
  hit : ∀ image i, s.images.get? image = some i → (i.hit = true ↔ ∃ l ∈ log, l.Enters image)
  ordered : ∀ image i, s.images.get? image = some i → i.threads.Pairwise Thread.Before
  threads : ∀ image i, s.images.get? image = some i → ∀ thread,
    thread ∈ i.threads ↔ ∃ l ∈ log, l.Enters image ∧ l.thread = thread
  /-- No answer is left out: each came through one of the mappings, into an image of the table. -/
  complete : ∀ l ∈ log, l.answer.isSome = true → ∃ id image, taken id ∧ l.Finds id ∧
    image < s.images.size ∧ l.Enters image

namespace Run

open Session (Books)

/-- The look-ups that a run makes for a record, with their answers. -/
def lookupsOf (r : Run) : Event → List Lookup
  | .sample e =>
    r.session.lookups e.thread (Session.sampleLookedUp (r.session.hitOf e.thread) e)
  | _ => []

/-- The look-ups that a run makes for records in order, whatever becomes of them. -/
def log (r : Run) : List Event → List Lookup
  | [] => []
  | e :: rest => r.lookupsOf e ++ (r.feed e).state.log rest

/-- The record of that number is a mapping, and it was taken. -/
def Taken (o : Options) (es : List Event) (id : Nat) : Prop :=
  ∃ e found, es[id]? = some (.mmap e) ∧
    (((start o).through (es.take id)).feed (.mmap e)).answer.2 = .ok found

variable {o : Options} {r : Run} {es : List Event} {log : List Lookup}

theorem log_concat (r : Run) (es : List Event) (e : Event) :
    r.log (es ++ [e]) = r.log es ++ (r.through es).lookupsOf e := by
  induction es generalizing r with
  | nil => simp [Run.log, through]
  | cons d rest ih =>
    rw [List.cons_append, Run.log, ih, Run.log, List.append_assoc]
    rfl

theorem state_lookups (s : Session) (thread : Thread) (addrs : List Nat) :
    (s.lookups thread addrs).foldl (fun s l => (s.resolve l.addr l.thread).state) s =
      s.resolveAll thread addrs := by
  induction addrs generalizing s with
  | nil => rfl
  | cons addr rest ih => exact ih (s.resolve addr thread).state

/-- The look-ups in the log are those that the run makes: what they leave is what the sample
leaves. -/
theorem state_lookupsOf (r : Run) (e : Sample) :
    (r.lookupsOf (.sample e)).foldl (fun s l => (s.resolve l.addr l.thread).state) r.session =
      (r.feed (.sample e)).state.session := by
  rw [lookupsOf, state_lookups, ← Session.state_sample]
  rfl

/-! ## One record -/

theorem books_feed (h : r.session.Books log) (hs : r.session.Steady)
    (hk : r.session.options.Keeps) (hfree : r.session.mappings.find? r.count = none) (e : Event) :
    (r.feed e).state.session.Books (log ++ r.lookupsOf e) := by
  cases e with
  | mmap e =>
    simp only [lookupsOf, List.append_nil]
    show (r.session.register e r.count).state.Books log
    cases hp : (r.session.placed e r.count).answer with
    | error refusal =>
      rw [(Session.register_refused hp).1]
      exact h.mapped e r.count
    | ok _ =>
      rw [(Session.register_granted hs hk hp).1]
      exact h.known e hfree
  | fork e =>
    simp only [lookupsOf, List.append_nil]
    refine h.of_eq ?_ ?_
    · simp only [feed, Session.fork]
      split <;> rfl
    · simp only [feed, Session.fork]
      split <;> rfl
  | exit e =>
    simp only [lookupsOf, List.append_nil]
    exact h
  | comm e =>
    simp only [lookupsOf, List.append_nil]
    exact h.of_eq rfl rfl
  | sample e =>
    have hstate : (r.feed (.sample e)).state.session = (r.session.sample e).state := rfl
    rw [lookupsOf, hstate, Session.state_sample]
    exact h.resolveAll hs hk e.thread _

theorem isSome_find?_of_remembers {s t : Session} (h : s.Remembers t) (id : Nat) :
    (t.mappings.find? id).isSome = (s.mappings.find? id).isSome := by
  have hid := congrArg Option.isSome (h.mappings id)
  rw [Option.isSome_map, Option.isSome_map] at hid
  exact hid

theorem isSome_find?_mmap (hs : r.session.Steady) (hk : r.session.options.Keeps) (e : Mmap)
    (id : Nat) : ((r.feed (.mmap e)).state.session.mappings.find? id).isSome = true ↔
      (r.session.mappings.find? id).isSome = true ∨
        id = r.count ∧ ∃ found, (r.feed (.mmap e)).answer.2 = .ok found := by
  have hstate : (r.feed (.mmap e)).state.session = (r.session.register e r.count).state := rfl
  rw [hstate]
  cases hp : (r.session.placed e r.count).answer with
  | error refusal =>
    have hfailed : ¬ ∃ found, (r.feed (.mmap e)).answer.2 = .ok found := by
      intro ⟨found, hfound⟩
      have hok := placed_of_feed_ok hfound
      rw [hp] at hok
      cases hok
    rw [(Session.register_refused hp).1,
      isSome_find?_of_remembers (Session.remembers_mapped r.session e r.count)]
    simp [hfailed]
  | ok _ =>
    obtain ⟨hknown, _, -, hanswer⟩ := Session.register_granted hs hk hp
    have htaken : ∃ found, (r.feed (.mmap e)).answer.2 = .ok found := by
      refine ⟨none, ?_⟩
      simp only [feed, hanswer]
      rfl
    rw [hknown, Session.known, Session.remember]
    by_cases hid : id = r.count
    · subst hid
      simp [Index.find?_insert_self, htaken]
    · rw [Index.find?_insert_of_ne _ _ hid]
      simp only [hid, false_and, or_false]
      rfl

/-- A record puts a mapping on record if and only if it is one and is taken, and takes none off. -/
theorem isSome_find?_feed (hs : r.session.Steady) (hk : r.session.options.Keeps) (e : Event)
    (id : Nat) : ((r.feed e).state.session.mappings.find? id).isSome = true ↔
      (r.session.mappings.find? id).isSome = true ∨
        id = r.count ∧ ∃ m found, e = .mmap m ∧ (r.feed (.mmap m)).answer.2 = .ok found := by
  cases e with
  | mmap e =>
    rw [isSome_find?_mmap hs hk]
    simp
  | fork e =>
    have hstate : (r.feed (.fork e)).state.session = (r.session.fork e).state := rfl
    rw [hstate, isSome_find?_of_remembers (Session.remembers_fork r.session e)]
    simp
  | exit e => simp [feed]
  | comm e =>
    have hstate : (r.feed (.comm e)).state.session = (r.session.nameThread e).state := rfl
    rw [hstate, isSome_find?_of_remembers (Session.remembers_nameThread r.session e)]
    simp
  | sample e =>
    have hstate : (r.feed (.sample e)).state.session = (r.session.sample e).state := rfl
    rw [hstate, isSome_find?_of_remembers (Session.remembers_sample r.session e)]
    simp

/-! ## Runs -/

theorem taken_concat (o : Options) (es : List Event) (e : Event) (id : Nat) :
    Taken o (es ++ [e]) id ↔ Taken o es id ∨
      id = es.length ∧ ∃ m found, e = .mmap m ∧
        (((start o).through es).feed (.mmap m)).answer.2 = .ok found := by
  rcases Nat.lt_trichotomy id es.length with hlt | heq | hgt
  · have htake : (es ++ [e]).take id = es.take id := List.take_append_of_le_length (Nat.le_of_lt hlt)
    have hne : id ≠ es.length := Nat.ne_of_lt hlt
    simp only [Taken, List.getElem?_append_left hlt, htake, hne, false_and, or_false]
  · subst heq
    have hnone : es[es.length]? = none := List.getElem?_eq_none (Nat.le_refl _)
    simp only [Taken, List.getElem?_concat_length, List.take_left, hnone, reduceCtorEq, false_and,
      exists_false, false_or, true_and, Option.some.injEq]
  · have hnone : es[id]? = none := List.getElem?_eq_none (Nat.le_of_lt hgt)
    have hnone' : (es ++ [e])[id]? = none := by
      refine List.getElem?_eq_none ?_
      rw [List.length_append, List.length_singleton]
      exact hgt
    have hne : id ≠ es.length := Nat.ne_of_gt hgt
    simp only [Taken, hnone, hnone', hne, reduceCtorEq, false_and, exists_false, or_self]

theorem isSome_find?_through (hk : o.Keeps) (es : List Event) (id : Nat) :
    (((start o).through es).session.mappings.find? id).isSome = true ↔ Taken o es id := by
  induction es using List.reverseRecOn with
  | nil =>
    constructor
    · intro h
      cases h
    · intro ⟨e, found, he, _⟩
      cases he
  | append_singleton es e ih =>
    have hs : ((start o).through es).session.Steady := steady_through (.start o) es
    have hkeeps : ((start o).through es).session.options.Keeps := by
      rw [options_through]
      exact hk
    rw [through_concat, isSome_find?_feed hs hkeeps, ih, count_start, taken_concat]

theorem books_through (hk : o.Keeps) (es : List Event) :
    ((start o).through es).session.Books ((start o).log es) := by
  induction es using List.reverseRecOn with
  | nil => exact .start o
  | append_singleton es e ih =>
    have hs : ((start o).through es).session.Steady := steady_through (.start o) es
    have hkeeps : ((start o).through es).session.options.Keeps := by
      rw [options_through]
      exact hk
    have hfree := (Ledger.through o es).find?_length
    rw [← count_start o es] at hfree
    rw [through_concat, log_concat]
    exact books_feed ih hs hkeeps hfree e

/-- What the books say of mappings and images, whichever mappings are on record. -/
theorem accounted_of_books {s : Session} {taken : Nat → Prop} (h : s.Books log)
    (htaken : ∀ id, (s.mappings.find? id).isSome = true ↔ taken id) : s.Accounted log taken := by
  have hsamples : ∀ id m, s.mappings.find? id = some m →
      m.samples = log.countP (fun l => l.Finds id) := by
    intro id m hm
    have hcount := h.samples id
    rw [hm] at hcount
    exact hcount.symm
  have hrecorded : ∀ id, (∃ m, s.mappings.find? id = some m) ↔ taken id := by
    intro id
    rw [← htaken, Option.isSome_iff_exists]
  refine ⟨hrecorded, hsamples, s.unsampled_ascending, ?unsampled, ?hit, h.ascending, ?threads,
    ?complete⟩
  case unsampled =>
    intro id
    rw [Session.mem_unsampled, ← hrecorded]
    constructor
    · intro ⟨image, himage⟩
      obtain ⟨m, hm, hreported⟩ := Option.map_eq_some_iff.1 himage
      have hzero : m.samples = 0 := congrArg Prod.snd hreported
      rw [hsamples id m hm] at hzero
      exact ⟨⟨m, hm⟩, hzero⟩
    · intro ⟨⟨m, hm⟩, hzero⟩
      refine ⟨m.image, ?_⟩
      rw [hm, Option.map_some, Mapping.reported, hsamples id m hm, hzero]
  case hit =>
    intro image i hi
    simp only [h.hit, hi, Option.some.injEq, exists_eq_left']
  case threads =>
    intro image i hi thread
    simp only [h.threads, hi, Option.some.injEq, exists_eq_left']
  case complete =>
    intro l hl hsome
    obtain ⟨id, hid⟩ := h.regions l hl hsome
    obtain ⟨hit, hhit⟩ := Option.isSome_iff_exists.1 hsome
    have hfinds : l.Finds id := ⟨hid, hsome⟩
    have henters : l.Enters hit.location.image := ⟨hit, hhit, rfl⟩
    obtain ⟨i, hi, -⟩ := (h.hit hit.location.image).1 ⟨l, hl, henters⟩
    refine ⟨id, hit.location.image, ?_, hfinds, (List.getElem?_eq_some_iff.1 hi).1, henters⟩
    -- A mapping that is not on record has a count of zero, and this look-up is one.
    have hpos : 0 < log.countP (fun l => l.Finds id) :=
      List.countP_pos_iff.2 ⟨l, hl, decide_eq_true hfinds⟩
    rw [← htaken]
    cases hm : s.mappings.find? id with
    | none =>
      rw [h.samples, hm] at hpos
      exact absurd hpos (Nat.lt_irrefl 0)
    | some m => rfl

/-- **Hits are counted exactly.** Let a run either not remap or keep the offsets of a page. Whatever
records it was fed, and whatever became of them: the mappings on record are those whose records were
taken; each has the number of look-ups that were answered through a region with its number, in
whichever process; those with none are listed, in ascending order; and an image is marked as hit,
and lists a thread, if such a look-up was answered into it, for that thread. A sample changes the
session as the look-ups do that are in the log for it. -/
theorem hits_accounted (hk : o.Keeps) (es : List Event) :
    let r := (start o).through es
    r.session.Accounted ((start o).log es) (Taken o es) ∧
    ∀ e, (r.feed (.sample e)).state.session =
      (r.lookupsOf (.sample e)).foldl (fun s l => (s.resolve l.addr l.thread).state) r.session := by
  intro r
  constructor
  · exact accounted_of_books (books_through hk es) (isSome_find?_through hk es)
  · intro e
    exact (state_lookupsOf r e).symm

/-- A mapping is carved by another one after its process was forked, one mapping is refused, and the
branches of the second sample are given up at an address that is in no mapping. The hits in the
parent, on both sides of the cut, and in the child are of the same mapping. -/
theorem hits_accounted_carved_and_forked :
    let o : Options := ⟨true, Decimal.ofCount 95, 4096⟩
    let es : List Event := [.mmap ⟨1, 1, 0x10000, 0x3000, 0, "a", false⟩, .fork ⟨2, 1, 2, 1⟩,
      .mmap ⟨1, 1, 0x11000, 0x1000, 0, "b", false⟩, .mmap ⟨1, 1, 0x50000, 0, 0, "c", false⟩,
      .mmap ⟨3, 3, 0x8000, 0x1000, 0, "d", false⟩,
      .sample ⟨1, 1, 0x10010, [0x12010, 0x99000], [⟨0x11010, 0x12020, false⟩]⟩,
      .sample ⟨2, 2, 0x11010, [], [⟨0x10000, 0x99000, false⟩, ⟨0x10000, 0x10000, false⟩]⟩]
    let s := ((start o).through es).session
    o.Keeps ∧ s.Accounted ((start o).log es) (Taken o es) ∧
      ((start o).log es).map (fun l => (l.thread.pid, l.addr, l.region?)) =
        [(1, 0x10010, some 0), (1, 0x12010, some 0), (1, 0x99000, none), (1, 0x11010, some 2),
          (1, 0x12020, some 0), (2, 0x11010, some 0), (2, 0x10000, some 0), (2, 0x99000, none)] ∧
      s.mappings.entries.map (fun m => (m.1, m.2.samples)) = [(0, 5), (2, 1), (4, 0)] ∧
      s.unsampled = [4] := by
  intro o es s
  have hk : o.Keeps := .inr (by decide)
  obtain ⟨haccounted, -⟩ := hits_accounted hk es
  exact ⟨hk, haccounted, by decide +kernel, by decide +kernel, by decide +kernel⟩

end Run
end Unslide
