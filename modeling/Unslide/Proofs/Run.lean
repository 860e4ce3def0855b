import Unslide.Proofs.Session.Twins
import Unslide.Replay

/-!
# Unslide.Proofs.Run

Whole runs, alone and two side by side. A run that keeps its sessions steady stops on a mapping only
if the space of its process refuses it. Twin runs that are fed matching records find the same in
them and stay twins.

* `steady_feed`, `feed_error`: one record, in one run.
* `Twin.feed`: one record, in two runs.
* `answer_feedAll_cons_ok`, `answer_feedAll_cons_error`: a whole capture, record by record.
* `through`: a run that goes on after failures.
-/

namespace Unslide
namespace Run

open Session (Steady Twin SamplesMatch)

variable {R : Space → Space → Prop} {r r' : Run}

theorem steady_feed (h : r.session.Steady) (e : Event) : (r.feed e).state.session.Steady := by
  cases e with
  | mmap e => exact Session.steady_register h e r.count
  | fork e => exact Session.steady_fork h e
  | exit e => exact h
  | comm e => exact Session.steady_nameThread h e
  | sample e => exact Session.steady_sample h e

/-- A record that stops a run is a mapping that the space of its process refuses. -/
theorem feed_error (h : r.session.Steady) (hk : r.session.options.Keeps) {e : Event} {f : Failure}
    (hf : (r.feed e).answer.2 = .error f) :
    ∃ m refusal, e = .mmap m ∧ (r.session.placed m r.count).answer = .error refusal ∧
      f = .mappingRefused r.count m.pid m.filename refusal := by
  cases e with
  | mmap m =>
    cases hp : (r.session.placed m r.count).answer with
    | error refusal =>
      have hanswer := (Session.register_refused hp).2
      simp only [feed, hanswer] at hf
      cases hf
      exact ⟨m, refusal, rfl, hp, rfl⟩
    | ok _ =>
      obtain ⟨-, _, -, hanswer⟩ := Session.register_granted h hk hp
      simp only [feed, hanswer] at hf
      cases hf
  | fork e => cases hf
  | exit e => cases hf
  | comm e => cases hf
  | sample e => cases hf

theorem placed_of_feed_ok {m : Mmap} {found : Option ResolvedSample}
    (h : (r.feed (.mmap m)).answer.2 = .ok found) :
    (r.session.placed m r.count).answer = .ok () := by
  cases hp : (r.session.placed m r.count).answer with
  | ok _ => rfl
  | error refusal =>
    simp only [feed, (Session.register_refused hp).2] at h
    cases h

theorem options_feed (r : Run) (e : Event) :
    (r.feed e).state.session.options = r.session.options := by
  cases e with
  | mmap e =>
    rcases Session.state_register r.session e r.count with h | h <;> simp only [feed, h] <;> rfl
  | fork e =>
    simp only [feed, Session.fork]
    split <;> rfl
  | exit e => rfl
  | comm e => rfl
  | sample e =>
    simp only [feed, Session.state_sample]
    exact Session.options_resolveAll _ _ _

theorem remapped_feed (r : Run) (e : Event) :
    (r.feed e).state.tally.remapped = r.tally.remapped := by
  cases e <;> rfl

/-! ## Two runs -/

/-- Two runs whose sessions are twins and whose counters agree. -/
structure Twin (R : Space → Space → Prop) (r r' : Run) : Prop where
  session : Session.Twin R r.session r'.session
  tally : r'.tally = { r.tally with remapped := r'.tally.remapped }
  count : r'.count = r.count

/-- Two records of one kind: mappings that both spaces grant, samples whose addresses are attributed
alike, or the same record. -/
inductive RecordsMatch (R : Space → Space → Prop) (r r' : Run) : Event → Event → Prop where
  | mmap {e f : Mmap} : f.pid = e.pid → f.filename = e.filename → f.kernel = e.kernel →
      (r.session.placed e r.count).answer = .ok () →
      (r'.session.placed f r.count).answer = .ok () →
      R (r.session.placed e r.count).state (r'.session.placed f r.count).state →
      RecordsMatch R r r' (.mmap e) (.mmap f)
  | fork (e : Lineage) : RecordsMatch R r r' (.fork e) (.fork e)
  | exit (e : Lineage) : RecordsMatch R r r' (.exit e) (.exit e)
  | comm (e : Naming) : RecordsMatch R r r' (.comm e) (.comm e)
  | sample {e f : Sample} :
      SamplesMatch (fun a b => (r.session.spaceOf e.pid).attribution a =
        (r'.session.spaceOf e.pid).attribution b) e f →
      RecordsMatch R r r' (.sample e) (.sample f)

namespace Twin

theorem start {o o' : Options} (hk : o.Keeps) (hk' : o'.Keeps)
    (hfresh : R (.aligned (pageSize o.alignment)) (.aligned (pageSize o'.alignment))) :
    Twin R (.start o) (.start o') where
  session :=
    ⟨⟨.start o, .start o'⟩, ⟨hk, hk'⟩, rfl, rfl, fun _ => rfl, .start, hfresh⟩
  tally := rfl
  count := rfl

/-- Twin runs find the same in matching records, and stay twins. -/
theorem feed (h : Twin R r r') {e f : Event} (hef : RecordsMatch R r r' e f) :
    (∃ found, (r.feed e).answer.2 = .ok found ∧ (r'.feed f).answer.2 = .ok found) ∧
      Twin R (r.feed e).state (r'.feed f).state := by
  have htally := h.tally
  cases hef with
  | @mmap e f hpid hname hkernel hok hok' hplaced =>
    obtain ⟨hstate, m, -, hanswer⟩ :=
      Session.register_granted h.session.steady.1 h.session.keeps.1 hok
    obtain ⟨hstate', m', -, hanswer'⟩ :=
      Session.register_granted h.session.steady.2 h.session.keeps.2 hok'
    simp only [Run.feed, h.count, hstate, hstate', hanswer, hanswer']
    refine ⟨⟨none, rfl, rfl⟩, h.session.known hpid hname hkernel hplaced, ?_, rfl⟩
    rw [htally]
  | fork e =>
    refine ⟨⟨none, rfl, rfl⟩, h.session.fork e, ?_, congrArg (· + 1) h.count⟩
    simp only [Run.feed]
    rw [htally]
  | exit e =>
    refine ⟨⟨none, rfl, rfl⟩, h.session, ?_, congrArg (· + 1) h.count⟩
    simp only [Run.feed]
    rw [htally]
  | comm e =>
    refine ⟨⟨none, rfl, rfl⟩, h.session.nameThread e, ?_, congrArg (· + 1) h.count⟩
    simp only [Run.feed]
    rw [htally]
  | @sample e f hsample =>
    obtain ⟨hfound, hnext⟩ := h.session.sample hsample
    refine ⟨⟨some (r.session.sample e).answer.2, rfl, ?_⟩, hnext, ?_, congrArg (· + 1) h.count⟩
    · simp only [Run.feed, hfound]
    · simp only [Run.feed, hfound]
      rw [htally]

end Twin

/-! ## Whole captures -/

variable {e : Event} {rest : List Event}

theorem answer_feedAll_cons_error {f : Failure} (h : (r.feed e).answer.2 = .error f) :
    (r.feedAll (e :: rest)).answer = .error f := by
  simp only [feedAll]
  generalize r.feed e = first at h
  obtain ⟨state, ⟨written, found⟩, notes⟩ := first
  simp only at h
  rw [h]

theorem state_feedAll_cons_error {f : Failure} (h : (r.feed e).answer.2 = .error f) :
    (r.feedAll (e :: rest)).state = (r.feed e).state := by
  simp only [feedAll]
  generalize r.feed e = first at h
  obtain ⟨state, ⟨written, found⟩, notes⟩ := first
  simp only at h
  rw [h]

theorem answer_feedAll_cons_ok {found : Option ResolvedSample}
    (h : (r.feed e).answer.2 = .ok found) :
    (r.feedAll (e :: rest)).answer = ((r.feed e).state.feedAll rest).answer.map fun others =>
      ((r.feed e).answer.1 :: others.1, found.toList ++ others.2) := by
  simp only [feedAll]
  generalize r.feed e = first at h
  obtain ⟨state, ⟨written, answer⟩, notes⟩ := first
  simp only at h
  rw [h]
  rfl

theorem state_feedAll_cons_ok {found : Option ResolvedSample}
    (h : (r.feed e).answer.2 = .ok found) :
    (r.feedAll (e :: rest)).state = ((r.feed e).state.feedAll rest).state := by
  simp only [feedAll]
  generalize r.feed e = first at h
  obtain ⟨state, ⟨written, answer⟩, notes⟩ := first
  simp only at h
  rw [h]
  rfl

theorem feedAll_cons_eq_ok {events : List Event} {samples : List ResolvedSample}
    (h : (r.feedAll (e :: rest)).answer = .ok (events, samples)) :
    ∃ found events' samples', (r.feed e).answer.2 = .ok found ∧
      ((r.feed e).state.feedAll rest).answer = .ok (events', samples') ∧
      events = (r.feed e).answer.1 :: events' ∧ samples = found.toList ++ samples' := by
  cases hfound : (r.feed e).answer.2 with
  | error f =>
    rw [answer_feedAll_cons_error hfound] at h
    cases h
  | ok found =>
    rw [answer_feedAll_cons_ok hfound] at h
    cases hrest : ((r.feed e).state.feedAll rest).answer with
    | error f =>
      rw [hrest] at h
      cases h
    | ok others =>
      rw [hrest] at h
      cases h
      exact ⟨found, others.1, others.2, rfl, rfl, rfl, rfl⟩

/-- Two captures are written alike, if their first records and what follows them are. -/
theorem feedAll_cons_alike {e f : Event} {rest rest' : List Event} {found : Option ResolvedSample}
    (hfound : (r.feed e).answer.2 = .ok found) (hfirst : (r'.feed f).answer = (r.feed e).answer)
    (hrest : ((r'.feed f).state.feedAll rest').answer = ((r.feed e).state.feedAll rest).answer ∧
      Twin R ((r.feed e).state.feedAll rest).state ((r'.feed f).state.feedAll rest').state) :
    (r'.feedAll (f :: rest')).answer = (r.feedAll (e :: rest)).answer ∧
      Twin R (r.feedAll (e :: rest)).state (r'.feedAll (f :: rest')).state := by
  have hfound' : (r'.feed f).answer.2 = .ok found := by rw [hfirst, hfound]
  rw [answer_feedAll_cons_ok hfound, answer_feedAll_cons_ok hfound', state_feedAll_cons_ok hfound,
    state_feedAll_cons_ok hfound', hfirst, hrest.1]
  exact ⟨rfl, hrest.2⟩

/-- A whole capture is stopped by the refusal of a mapping only. -/
theorem feedAll_error (h : r.session.Steady) (hk : r.session.options.Keeps) {es : List Event}
    {f : Failure} (hf : (r.feedAll es).answer = .error f) :
    ∃ id pid filename refusal, f = .mappingRefused id pid filename refusal := by
  induction es generalizing r with
  | nil => cases hf
  | cons e rest ih =>
    cases hfound : (r.feed e).answer.2 with
    | error f' =>
      rw [answer_feedAll_cons_error hfound] at hf
      cases hf
      obtain ⟨m, refusal, -, -, rfl⟩ := feed_error h hk hfound
      exact ⟨_, _, _, _, rfl⟩
    | ok found =>
      rw [answer_feedAll_cons_ok hfound] at hf
      refine ih (steady_feed h e) (by rw [options_feed]; exact hk) ?_
      cases hrest : ((r.feed e).state.feedAll rest).answer with
      | error f' =>
        rw [hrest] at hf
        cases hf
        rfl
      | ok others =>
        rw [hrest] at hf
        cases hf

/-- Feed records to a run in order, whatever becomes of them. -/
def through (r : Run) (es : List Event) : Run := es.foldl (fun r e => (r.feed e).state) r

theorem through_concat (r : Run) (es : List Event) (e : Event) :
    r.through (es ++ [e]) = ((r.through es).feed e).state := by
  simp only [through, List.foldl_append, List.foldl_cons, List.foldl_nil]

theorem count_through (r : Run) (es : List Event) : (r.through es).count = r.count + es.length := by
  induction es generalizing r with
  | nil => rfl
  | cons e rest ih =>
    rw [List.length_cons, show r.through (e :: rest) = (r.feed e).state.through rest from rfl, ih,
      count_feed]
    omega

theorem count_start (o : Options) (es : List Event) : ((start o).through es).count = es.length := by
  rw [count_through]
  exact Nat.zero_add _

theorem steady_through (h : r.session.Steady) (es : List Event) :
    (r.through es).session.Steady := by
  induction es generalizing r with
  | nil => exact h
  | cons e rest ih => exact ih (steady_feed h e)

theorem options_through (r : Run) (es : List Event) :
    (r.through es).session.options = r.session.options := by
  induction es generalizing r with
  | nil => rfl
  | cons e rest ih => exact (ih _).trans (options_feed r e)

theorem remapped_feedAll (r : Run) (es : List Event) :
    (r.feedAll es).state.tally.remapped = r.tally.remapped := by
  induction es generalizing r with
  | nil => rfl
  | cons e rest ih =>
    cases hfound : (r.feed e).answer.2 with
    | error f => rw [state_feedAll_cons_error hfound, remapped_feed]
    | ok found => rw [state_feedAll_cons_ok hfound, ih, remapped_feed]

theorem options_feedAll (r : Run) (es : List Event) :
    (r.feedAll es).state.session.options = r.session.options := by
  induction es generalizing r with
  | nil => rfl
  | cons e rest ih =>
    cases hfound : (r.feed e).answer.2 with
    | error f => rw [state_feedAll_cons_error hfound, options_feed]
    | ok found => rw [state_feedAll_cons_ok hfound, ih, options_feed]

end Run

namespace Replay

variable {o : Options} {es : List Event}

/-- What a run gives is told by what can be computed of it. -/
theorem exists_of_map_answer {α : Type} {f : Replay → α} {a : α}
    (h : (run o es).answer.toOption.map f = some a) : ∃ out, (run o es).answer = .ok out ∧
      f out = a := by
  cases hrun : (run o es).answer with
  | error failure =>
    rw [hrun] at h
    cases h
  | ok out =>
    rw [hrun] at h
    exact ⟨out, rfl, Option.some.inj h⟩

theorem run_of_error {f : Failure} (h : ((Run.start o).feedAll es).answer = .error f) :
    (run o es).answer = .error f := by
  simp only [run, h]

/-- A capture that is taken to its end is held against the threshold of the options. -/
theorem run_of_ok {events : List Event} {samples : List ResolvedSample}
    (h : ((Run.start o).feedAll es).answer = .ok (events, samples)) :
    (run o es).answer =
      if ((Run.start o).feedAll es).state.tally.FallsShort o.threshold then
        .error (.belowThreshold ((Run.start o).feedAll es).state.tally.mapped
          ((Run.start o).feedAll es).state.tally.samples o.threshold)
      else .ok (ofRun ((Run.start o).feedAll es).state events samples) := by
  have ho : ((Run.start o).feedAll es).state.session.options = o := Run.options_feedAll _ _
  by_cases hshort : ((Run.start o).feedAll es).state.tally.FallsShort o.threshold
  · simp only [run, h, Run.verdict, ho, if_pos hshort]
  · simp only [run, h, Run.verdict, ho, if_neg hshort]

/-- A replay that ends well gives what its run gives. -/
theorem feedAll_of_run_ok {out : Replay} (h : (run o es).answer = .ok out) :
    ∃ samples, ((Run.start o).feedAll es).answer = .ok (out.events, samples) ∧
      out = ofRun ((Run.start o).feedAll es).state out.events samples := by
  cases hfed : ((Run.start o).feedAll es).answer with
  | error f =>
    rw [run_of_error hfed] at h
    cases h
  | ok taken =>
    obtain ⟨events, samples⟩ := taken
    rw [run_of_ok hfed] at h
    split at h
    · cases h
    · cases h
      exact ⟨samples, rfl, rfl⟩

end Replay
end Unslide
