import Unslide.Proofs.Rereading
import Unslide.Record.Writer

/-!
# Unslide.Proofs.Readdressing

A run changes addresses and nothing else. `Readdressed` says of two records that they are of one
kind and agree in all that is no address; markers of a call chain and the padding of a branch stack
are no addresses. Without remapping a record is written as it was read. What a run counts are the
records of each kind, and the samples that were resolved completely.

* `readdressed_register`, `readdressed_resolution`: the records that a session may change.
* `readdressed_feedAll`, `feedAll_unchanged`: a whole capture, record by record.
* `tally_feedAll`, `threads_feedAll`: what is counted, and for whom something was found.
* `readdressed_run`: replays.
-/

namespace Unslide

/-- The branch `b'` is `b` with other addresses. Padding has none. -/
structure Branch.Readdressed (b b' : Branch) : Prop where
  mispredicted : b'.mispredicted = b.mispredicted
  padding : b.isNull = true → b' = b

namespace Branch

theorem readdressed_same (bs : List Branch) : List.Forall₂ Readdressed bs bs :=
  List.forall₂_same.2 fun _ _ => ⟨rfl, fun _ => rfl⟩

/-- A branch in front of the padding may get other addresses. -/
theorem readdressed_of_real {b b' : Branch} (hreal : b.isNull = false)
    (hflag : b'.mispredicted = b.mispredicted) : b.Readdressed b' where
  mispredicted := hflag
  padding hnull := by
    rw [hreal] at hnull
    cases hnull

end Branch

/-- The sample `f` is `e` with other addresses. -/
structure Sample.Readdressed (e f : Sample) : Prop where
  pid : f.pid = e.pid
  tid : f.tid = e.tid
  callchain : List.Forall₂ (fun v v' => isMarker v = true → v' = v) e.callchain f.callchain
  branches : List.Forall₂ Branch.Readdressed e.branches f.branches

/-- The mapping `f` is `e` with another start. Only the first record of a capture, which may be the
kernel's mapping, may get another length and offset. -/
structure Mmap.Readdressed (number : Nat) (e f : Mmap) : Prop where
  pid : f.pid = e.pid
  tid : f.tid = e.tid
  filename : f.filename = e.filename
  kernel : f.kernel = e.kernel
  extent : number ≠ 0 → f.len = e.len ∧ f.pgoff = e.pgoff

/-- Two records of one kind that agree in all that is no address. -/
inductive Event.Readdressed (number : Nat) : Event → Event → Prop where
  | mmap {e f : Mmap} : e.Readdressed number f → Readdressed number (.mmap e) (.mmap f)
  | fork (e : Lineage) : Readdressed number (.fork e) (.fork e)
  | exit (e : Lineage) : Readdressed number (.exit e) (.exit e)
  | comm (e : Naming) : Readdressed number (.comm e) (.comm e)
  | sample {e f : Sample} : e.Readdressed f → Readdressed number (.sample e) (.sample f)

namespace Session

variable {s : Session} {look : Nat → Option Hit}

/-! ## Mappings -/

/-- A mapping is written as it was read, or, in a session that remaps, with its synthetic start. -/
theorem written_register (s : Session) (e : Mmap) (id : Nat) :
    (s.register e id).answer.1 = e ∨
      s.options.remap = true ∧ ∃ place, (s.register e id).answer.1 = e.written id place := by
  simp only [register]
  split
  · exact .inl rfl
  · split
    · exact .inl rfl
    · rename_i hremap
      rw [Bool.not_eq_false] at hremap
      split
      · exact .inl rfl
      · split
        · exact .inr ⟨hremap, _, rfl⟩
        · exact .inl rfl

theorem readdressed_register (s : Session) (e : Mmap) (id : Nat) :
    e.Readdressed id (s.register e id).answer.1 := by
  rcases written_register s e id with heq | ⟨-, place, heq⟩
  · rw [heq]
    exact ⟨rfl, rfl, rfl, rfl, fun _ => ⟨rfl, rfl⟩⟩
  · rw [heq]
    refine ⟨rfl, rfl, rfl, rfl, ?_⟩
    intro hid
    simp only [Mmap.written, Mmap.geometry_of_ne_zero e hid, and_self]

/-! ## Samples -/

theorem readdressed_frames (look : Nat → Option Hit) (ip sampled : Nat) (values : List Nat) :
    List.Forall₂ (fun v v' => isMarker v = true → v' = v) values
      (frames look ip sampled values).values := by
  simp only [frames, List.forall₂_map_right_iff, List.forall₂_same]
  intro v _ hmarker
  rw [rewritten, if_pos hmarker]

theorem readdressed_jumps (look : Nat → Option Hit) {bs : List Branch}
    (hreal : ∀ b ∈ bs, b.isNull = false) :
    List.Forall₂ Branch.Readdressed bs (jumps look bs).stack := by
  induction bs with
  | nil => exact .nil
  | cons b rest ih =>
    have hb := hreal b List.mem_cons_self
    simp only [jumps]
    cases look b.source with
    | none => exact Branch.readdressed_same (b :: rest)
    | some source =>
      cases look b.target with
      | none => exact .cons (Branch.readdressed_of_real hb rfl) (Branch.readdressed_same rest)
      | some target =>
        exact .cons (Branch.readdressed_of_real hb rfl)
          (ih fun c hc => hreal c (List.mem_cons_of_mem _ hc))

theorem readdressed_stack (look : Nat → Option Hit) (bs : List Branch) :
    List.Forall₂ Branch.Readdressed bs (stack look bs).stack := by
  simp only [stack]
  cases (bs.dropWhile fun b => !b.isNull).find? fun b => !b.isNull with
  | some stray => exact Branch.readdressed_same bs
  | none =>
    have hreal : ∀ b ∈ bs.takeWhile fun b => !b.isNull, b.isNull = false := by
      intro b hb
      simpa using List.mem_takeWhile_imp hb
    have happend : List.Forall₂ Branch.Readdressed
        (bs.takeWhile (fun b => !b.isNull) ++ bs.dropWhile fun b => !b.isNull) _ :=
      List.rel_append (readdressed_jumps look hreal)
        (Branch.readdressed_same (bs.dropWhile fun b => !b.isNull))
    rw [List.takeWhile_append_dropWhile] at happend
    exact happend

theorem readdressed_resolution (look : Nat → Option Hit) (command : Option Nat) (e : Sample) :
    e.Readdressed (resolution look command e).1 where
  pid := rfl
  tid := rfl
  callchain := readdressed_frames look _ e.ip e.callchain
  branches := readdressed_stack look e.branches

/-! ## Sessions that do not remap -/

/-- What is found for an address is to be written as the address itself. -/
def Keeping (look : Nat → Option Hit) : Prop := ∀ addr hit, look addr = some hit → hit.address = addr

theorem keeping_hitOf (hremap : s.options.remap = false) (thread : Thread) :
    Keeping (s.hitOf thread) := by
  intro addr hit hhit
  rw [hitOf, answer_resolve] at hhit
  simp only [finding, hremap, if_true] at hhit
  split at hhit
  · cases hhit
  · split at hhit
    · cases hhit
    · split at hhit
      · cases hhit
      · cases hhit
        rfl

namespace Keeping

theorem written_eq (h : Keeping look) (addr : Nat) : written look addr = addr := by
  unfold written
  cases hhit : look addr with
  | none => rfl
  | some hit => exact h addr hit hhit

theorem values_frames (h : Keeping look) (sampled : Nat) (values : List Nat) :
    (frames look (written look sampled) sampled values).values = values := by
  have hsame : ∀ v, rewritten look (written look sampled) sampled v = v := by
    intro v
    simp only [rewritten, h.written_eq]
    split
    · rfl
    · split
      · rename_i heq
        exact heq.symm
      · rfl
  simp only [frames, funext hsame, List.map_id']

theorem stack_jumps (h : Keeping look) (bs : List Branch) : (jumps look bs).stack = bs := by
  induction bs with
  | nil => rfl
  | cons b rest ih =>
    simp only [jumps]
    cases hsource : look b.source with
    | none => rfl
    | some source =>
      cases htarget : look b.target with
      | none => simp only [h b.source source hsource]
      | some target => simp only [h b.source source hsource, h b.target target htarget, ih]

theorem resolution_eq (h : Keeping look) (command : Option Nat) (e : Sample) :
    (resolution look command e).1 = e := by
  have hstack : (stack look e.branches).stack = e.branches := by
    simp only [stack]
    split
    · rfl
    · simp only [h.stack_jumps, List.takeWhile_append_dropWhile]
  simp only [resolution, h.written_eq, hstack]
  have hvalues := h.values_frames e.ip e.callchain
  rw [h.written_eq] at hvalues
  rw [hvalues]

end Keeping

end Session

/-! ## Runs -/

/-- The counters after records of which something was found for the samples. -/
def Tally.after (t : Tally) (es : List Event) (found : List ResolvedSample) : Tally where
  mmaps := t.mmaps + es.countP fun e => Record.kindOf e = .mmap
  forks := t.forks + es.countP fun e => Record.kindOf e = .fork
  exits := t.exits + es.countP fun e => Record.kindOf e = .exit
  comms := t.comms + es.countP fun e => Record.kindOf e = .comm
  samples := t.samples + es.countP fun e => Record.kindOf e = .sample
  mapped := t.mapped + found.countP ResolvedSample.complete
  remapped := t.remapped

theorem Tally.after_after (t : Tally) (es fs : List Event) (found found' : List ResolvedSample) :
    (t.after es found).after fs found' = t.after (es ++ fs) (found ++ found') := by
  simp only [Tally.after, List.countP_append, Nat.add_assoc]

namespace Run

variable {r : Run} {es : List Event}

theorem readdressed_feed (r : Run) (e : Event) :
    Event.Readdressed r.count e (r.feed e).answer.1 := by
  cases e with
  | mmap e => exact .mmap (Session.readdressed_register r.session e r.count)
  | fork e => exact .fork e
  | exit e => exact .exit e
  | comm e => exact .comm e
  | sample e =>
    refine .sample ?_
    rw [Session.answer_sample]
    exact Session.readdressed_resolution _ _ e

theorem feed_unchanged (hremap : r.session.options.remap = false) (e : Event) :
    (r.feed e).answer.1 = e := by
  cases e with
  | mmap e =>
    rcases Session.written_register r.session e r.count with heq | ⟨hremaps, -⟩
    · exact congrArg Event.mmap heq
    · rw [hremap] at hremaps
      cases hremaps
  | fork e => rfl
  | exit e => rfl
  | comm e => rfl
  | sample e =>
    have hsample : (r.session.sample e).answer.1 = e := by
      rw [Session.answer_sample]
      exact (Session.keeping_hitOf hremap e.thread).resolution_eq _ e
    exact congrArg Event.sample hsample

/-- Nothing is found for a mapping. -/
theorem found_feed_mmap {m : Mmap} {found : Option ResolvedSample}
    (h : (r.feed (.mmap m)).answer.2 = .ok found) : found = none := by
  simp only [feed] at h
  cases hanswer : (r.session.register m r.count).answer.2 with
  | error f =>
    rw [hanswer] at h
    cases h
  | ok _ =>
    rw [hanswer] at h
    cases h
    rfl

theorem tally_feed {e : Event} {found : Option ResolvedSample}
    (h : (r.feed e).answer.2 = .ok found) :
    (r.feed e).state.tally = r.tally.after [e] found.toList := by
  cases e with
  | mmap e =>
    rw [found_feed_mmap h]
    rfl
  | fork e =>
    cases h
    rfl
  | exit e =>
    cases h
    rfl
  | comm e =>
    cases h
    rfl
  | sample e =>
    cases h
    simp only [feed, Tally.after, Option.toList_some, List.countP_singleton]
    cases (r.session.sample e).answer.2.complete <;> rfl

/-- Something is found for a sample, and for its thread. -/
theorem thread_feed {e : Event} {found : Option ResolvedSample}
    (h : (r.feed e).answer.2 = .ok found) :
    found.map ResolvedSample.thread = e.sample?.map Sample.thread := by
  cases e with
  | mmap e =>
    rw [found_feed_mmap h]
    rfl
  | fork e =>
    cases h
    rfl
  | exit e =>
    cases h
    rfl
  | comm e =>
    cases h
    rfl
  | sample e =>
    cases h
    rfl

theorem readdressed_feedAll {events : List Event} {samples : List ResolvedSample}
    (h : (r.feedAll es).answer = .ok (events, samples)) :
    List.Forall₂ (fun e f => Event.Readdressed e.2 e.1 f) (es.zipIdx r.count) events := by
  induction es generalizing r events samples with
  | nil =>
    cases h
    exact .nil
  | cons e rest ih =>
    obtain ⟨found, events', samples', -, hrest, rfl, -⟩ := feedAll_cons_eq_ok h
    have hmore := ih hrest
    rw [count_feed] at hmore
    rw [List.zipIdx_cons]
    exact .cons (readdressed_feed r e) hmore

theorem feedAll_unchanged {events : List Event} {samples : List ResolvedSample}
    (hremap : r.session.options.remap = false)
    (h : (r.feedAll es).answer = .ok (events, samples)) : events = es := by
  induction es generalizing r events samples with
  | nil =>
    cases h
    rfl
  | cons e rest ih =>
    obtain ⟨found, events', samples', -, hrest, rfl, -⟩ := feedAll_cons_eq_ok h
    have hnext : (r.feed e).state.session.options.remap = false := by
      rw [options_feed]
      exact hremap
    rw [feed_unchanged hremap, ih hnext hrest]

theorem tally_feedAll {events : List Event} {samples : List ResolvedSample}
    (h : (r.feedAll es).answer = .ok (events, samples)) :
    (r.feedAll es).state.tally = r.tally.after es samples := by
  induction es generalizing r events samples with
  | nil =>
    cases h
    rfl
  | cons e rest ih =>
    obtain ⟨found, events', samples', hfound, hrest, -, rfl⟩ := feedAll_cons_eq_ok h
    rw [state_feedAll_cons_ok hfound, ih hrest, tally_feed hfound, Tally.after_after]
    rfl

theorem threads_feedAll {events : List Event} {samples : List ResolvedSample}
    (h : (r.feedAll es).answer = .ok (events, samples)) :
    samples.map ResolvedSample.thread = (samplesOf es).map Sample.thread := by
  induction es generalizing r events samples with
  | nil =>
    cases h
    rfl
  | cons e rest ih =>
    obtain ⟨found, events', samples', hfound, hrest, -, rfl⟩ := feedAll_cons_eq_ok h
    have hthread := thread_feed hfound
    rw [List.map_append, ih hrest]
    cases hsample : e.sample? with
    | none =>
      rw [hsample, Option.map_none, Option.map_eq_none_iff] at hthread
      simp only [hthread, samplesOf, List.filterMap_cons_none hsample, Option.toList_none,
        List.map_nil, List.nil_append]
    | some sample =>
      rw [hsample, Option.map_some, Option.map_eq_some_iff] at hthread
      obtain ⟨x, rfl, hx⟩ := hthread
      simp only [samplesOf, List.filterMap_cons_some hsample, Option.toList_some, List.map_cons,
        List.map_nil, hx, List.singleton_append]

end Run

namespace Replay

variable {o : Options} {es : List Event}

/-- **A replay changes addresses and nothing else.** As many records are written as were read, each
of the kind of the one that it stands for, and in agreement with it in all that is no address; and
the very same records, if the run does not remap. There is one line for each sample, in order and of
its thread. The counters are the numbers of the records of each kind and of the lines that are
complete. -/
theorem readdressed_run {out : Replay} (h : (run o es).answer = .ok out) :
    out.events.length = es.length ∧
      (∀ number e, es[number]? = some e →
        ∃ f, out.events[number]? = some f ∧ Event.Readdressed number e f) ∧
      (o.remap = false → out.events = es) ∧
      out.lines.map Report.Line.thread = (samplesOf es).map Sample.thread ∧
      out.tally =
        { mmaps := es.countP fun e => Record.kindOf e = .mmap
          forks := es.countP fun e => Record.kindOf e = .fork
          exits := es.countP fun e => Record.kindOf e = .exit
          comms := es.countP fun e => Record.kindOf e = .comm
          samples := es.countP fun e => Record.kindOf e = .sample
          mapped := out.lines.countP Report.Line.complete
          remapped := o.remap } := by
  obtain ⟨samples, hfed, hout⟩ := feedAll_of_run_ok h
  have hevents := Run.readdressed_feedAll hfed
  refine ⟨?length, ?events, ?unchanged, ?threads, ?tally⟩
  case length =>
    have hlength := hevents.length_eq
    rw [List.length_zipIdx] at hlength
    exact hlength.symm
  case events =>
    intro number e he
    obtain ⟨hbound, hget⟩ := List.getElem?_eq_some_iff.1 he
    have hbound' : number < out.events.length := by
      rw [← hevents.length_eq, List.length_zipIdx]
      exact hbound
    have hpair := hevents.get (by rwa [List.length_zipIdx]) hbound'
    refine ⟨out.events[number], List.getElem?_eq_getElem hbound', ?_⟩
    simpa [Run.start, hget] using hpair
  case unchanged =>
    intro hremap
    exact Run.feedAll_unchanged hremap hfed
  case threads =>
    rw [hout, ← Run.threads_feedAll hfed]
    simp only [ofRun, List.map_map]
    rfl
  case tally =>
    rw [hout]
    simp only [ofRun]
    rw [Run.tally_feedAll hfed]
    simp only [Tally.after, Run.start, Tally.start, Nat.zero_add, List.countP_map]
    rfl

/-- The kernel's mapping begins early and is trimmed. A page of a program is mapped again, its
process is forked, and the sample has a marker, a branch to an address that is in no mapping, and
padding. -/
theorem readdressed_run_of_trimmed_kernel :
    let o : Options := ⟨true, Decimal.ofCount 0, 0x1000⟩
    let es : List Event :=
      [.mmap ⟨topId, 0, 0x1000, 0x5000, 0x3000, "kernel", true⟩,
        .mmap ⟨7, 7, 0x10000, 0x3000, 0x2000, "a", false⟩, .comm ⟨7, 7, "seven"⟩,
        .fork ⟨8, 7, 8, 7⟩, .mmap ⟨7, 7, 0x11000, 0x1000, 0, "b", false⟩,
        .sample ⟨8, 8, 0x11010, [top, 0x3020], [⟨0x11010, 0x99000, true⟩, .null]⟩,
        .exit ⟨8, 7, 8, 7⟩]
    ∃ out, (run o es).answer = .ok out ∧
      out.events =
        [.mmap ⟨topId, 0, 0, 0x3000, 0, "kernel", true⟩,
          .mmap ⟨7, 7, 0x3000, 0x3000, 0x2000, "a", false⟩, .comm ⟨7, 7, "seven"⟩,
          .fork ⟨8, 7, 8, 7⟩, .mmap ⟨7, 7, 0x4000, 0x1000, 0, "b", false⟩,
          .sample ⟨8, 8, 0x4010, [top, 0x20], [⟨0x4010, 0x99000, true⟩, .null]⟩,
          .exit ⟨8, 7, 8, 7⟩] ∧
      out.events.length = es.length ∧
      out.lines.map Report.Line.thread = [⟨8, 8⟩] ∧ out.tally = ⟨3, 1, 1, 1, 1, 0, true⟩ := by
  intro o es
  have hgiven : (run o es).answer.toOption.map (fun out => (out.events, out.lines)) = some
      ([.mmap ⟨topId, 0, 0, 0x3000, 0, "kernel", true⟩,
        .mmap ⟨7, 7, 0x3000, 0x3000, 0x2000, "a", false⟩, .comm ⟨7, 7, "seven"⟩,
        .fork ⟨8, 7, 8, 7⟩, .mmap ⟨7, 7, 0x4000, 0x1000, 0, "b", false⟩,
        .sample ⟨8, 8, 0x4010, [top, 0x20], [⟨0x4010, 0x99000, true⟩, .null]⟩,
        .exit ⟨8, 7, 8, 7⟩],
      [⟨⟨8, 8⟩, some "seven", some ⟨"a", 0x3010⟩, [⟨"kernel", 0x20⟩], [], false⟩]) := by
    decide +kernel
  obtain ⟨out, hrun, hout⟩ := exists_of_map_answer hgiven
  obtain ⟨hevents, hlines⟩ := Prod.mk.inj hout
  obtain ⟨hlength, -, -, hthreads, htally⟩ := readdressed_run hrun
  refine ⟨out, hrun, hevents, hlength, hthreads, ?_⟩
  rw [htally, hlines]
  rfl

end Replay
end Unslide
