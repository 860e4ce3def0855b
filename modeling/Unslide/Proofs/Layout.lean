import Unslide.Proofs.Run
import Unslide.Proofs.Space.Overlay

/-!
# Unslide.Proofs.Layout

Where regions are placed does not show in what samples resolve to. Two runs over one capture may
remap or not, and keep the offsets of different pages: their spaces hold the same intervals of real
addresses, so every address is attributed alike.

* `Indistinguishable`: relations between spaces that a walk cannot tell apart.
* `feedAll_twin`: two runs that are both taken to the end of a capture.
* `feedAll_error_of_eq`: with one page size the same mapping stops both runs, for the same reason.
* `layout_invisible`: the ends of two runs.
-/

namespace Unslide

/-- Related spaces attribute every address alike, and stay related when both grant a request. -/
structure Space.Indistinguishable (R : Space → Space → Prop) : Prop where
  attribution : ∀ {s t : Space}, s.Sound → t.Sound → R s t →
    ∀ addr, s.attribution addr = t.attribution addr
  reserve : ∀ {s t : Space} {q : Request}, s.Sound → t.Sound → R s t →
    (s.reserve q true).answer = .ok () → (t.reserve q true).answer = .ok () →
    R (s.reserve q true).state (t.reserve q true).state

namespace Space

def SameSpans (s t : Space) : Prop := s.spans = t.spans

theorem indistinguishable_sameSpans : Indistinguishable SameSpans where
  attribution hs ht h addr := by
    rw [attribution_eq hs, attribution_eq ht, h]
  reserve hs ht h hok hok' := by
    rw [SameSpans, spans_reserve hs, spans_reserve ht, hok, hok', h]

end Space

namespace Run

open Space (Indistinguishable SameSpans)

variable {R : Space → Space → Prop} {r r' : Run} {e : Event}

theorem samplesMatch_refl {A : Nat → Nat → Prop} (hA : ∀ a, A a a) (e : Sample) :
    Session.SamplesMatch A e e where
  thread := rfl
  ip := hA _
  callchain := by
    refine List.forall₂_same.2 fun v _ => ?_
    cases hv : isMarker v with
    | true => exact .marker hv
    | false =>
      by_cases heq : v = e.ip
      · rw [← heq]
        exact .own hv hv
      · exact .frame hv hv heq heq (hA v)
  branches := by
    refine List.forall₂_same.2 fun b _ => ?_
    cases hb : b.isNull with
    | true => exact .padding hb
    | false => exact .taken hb hb rfl (hA _) (hA _)

/-- A record that stops neither of two runs with indistinguishable spaces matches itself. -/
theorem recordsMatch_self (hR : Indistinguishable R) (h : Twin R r r')
    {found found' : Option ResolvedSample} (hok : (r.feed e).answer.2 = .ok found)
    (hok' : (r'.feed e).answer.2 = .ok found') : RecordsMatch R r r' e e := by
  have hs := h.session.steady.1.sound_spaceOf
  have ht := h.session.steady.2.sound_spaceOf
  cases e with
  | mmap m =>
    have hp := placed_of_feed_ok hok
    have hp' := placed_of_feed_ok hok'
    rw [h.count] at hp'
    exact .mmap rfl rfl rfl hp hp'
      (hR.reserve (hs m.pid) (ht m.pid) (h.session.spaceOf m.pid) hp hp')
  | fork e => exact .fork e
  | exit e => exact .exit e
  | comm e => exact .comm e
  | sample e =>
    exact .sample (samplesMatch_refl
      (hR.attribution (hs e.pid) (ht e.pid) (h.session.spaceOf e.pid)) e)

theorem feedAll_twin (hR : Indistinguishable R) (h : Twin R r r') {es events events' : List Event}
    {samples samples' : List ResolvedSample} (hok : (r.feedAll es).answer = .ok (events, samples))
    (hok' : (r'.feedAll es).answer = .ok (events', samples')) :
    samples' = samples ∧ Twin R (r.feedAll es).state (r'.feedAll es).state := by
  induction es generalizing r r' events events' samples samples' with
  | nil =>
    cases hok
    cases hok'
    exact ⟨rfl, h⟩
  | cons e rest ih =>
    obtain ⟨found, tail, more, hfound, hrest, -, rfl⟩ := feedAll_cons_eq_ok hok
    obtain ⟨found', tail', more', hfound', hrest', -, rfl⟩ := feedAll_cons_eq_ok hok'
    obtain ⟨⟨both, hboth, hboth'⟩, hnext⟩ := h.feed (recordsMatch_self hR h hfound hfound')
    rw [state_feedAll_cons_ok hfound, state_feedAll_cons_ok hfound']
    obtain ⟨hmore, hlast⟩ := ih hnext hrest hrest'
    rw [hboth] at hfound
    rw [hboth'] at hfound'
    cases hfound
    cases hfound'
    exact ⟨by rw [hmore], hlast⟩

theorem feed_of_eq (h : Twin Eq r r') (e : Event) :
    (∃ f, (r.feed e).answer.2 = .error f ∧ (r'.feed e).answer.2 = .error f) ∨
      RecordsMatch Eq r r' e e := by
  have hspace := h.session.spaceOf
  cases e with
  | mmap m =>
    have hsame : r'.session.placed m r.count = r.session.placed m r.count := by
      rw [Session.placed, Session.placed, hspace m.pid]
    cases hp : (r.session.placed m r.count).answer with
    | error refusal =>
      have hp' : (r'.session.placed m r'.count).answer = .error refusal := by
        rw [h.count, hsame, hp]
      left
      refine ⟨.mappingRefused r.count m.pid m.filename refusal, ?_, ?_⟩
      · simp only [feed, (Session.register_refused hp).2]
        rfl
      · simp only [feed, (Session.register_refused hp').2]
        rw [h.count]
        rfl
    | ok _ =>
      right
      exact .mmap rfl rfl rfl hp (by rw [hsame, hp]) (by rw [hsame])
  | fork e => exact .inr (.fork e)
  | exit e => exact .inr (.exit e)
  | comm e => exact .inr (.comm e)
  | sample e =>
    right
    exact .sample (samplesMatch_refl (fun a => by rw [hspace e.pid]) e)

theorem map_eq_error_iff {α β : Type} {x : Except Failure α} {g : α → β} {f : Failure} :
    x.map g = .error f ↔ x = .error f := by
  cases x with
  | error f' => simp [Except.map]
  | ok a => simp [Except.map]

/-- With the same spaces, a capture stops both of two runs, and for the same reason, or neither. -/
theorem feedAll_error_iff_of_eq (h : Twin Eq r r') (es : List Event) (f : Failure) :
    (r.feedAll es).answer = .error f ↔ (r'.feedAll es).answer = .error f := by
  induction es generalizing r r' with
  | nil => simp [feedAll]
  | cons e rest ih =>
    rcases feed_of_eq h e with ⟨f', hf, hf'⟩ | hmatch
    · rw [answer_feedAll_cons_error hf, answer_feedAll_cons_error hf']
    · obtain ⟨⟨found, hfound, hfound'⟩, hnext⟩ := h.feed hmatch
      rw [answer_feedAll_cons_ok hfound, answer_feedAll_cons_ok hfound', map_eq_error_iff,
        map_eq_error_iff]
      exact ih hnext

end Run

namespace Replay

open Space (Indistinguishable SameSpans)

/-- The failures that a mapping record stops a run with. -/
def OfMapping : Failure → Prop
  | .belowThreshold _ _ _ => False
  | _ => True

/-- Two runs end in the same way: too few samples mapped, and the same numbers of them, or the same
lines, the same mappings without samples, and the same counters but for the mark of a remapped
capture. -/
inductive SameEnd : Except Failure Replay → Except Failure Replay → Prop where
  | below (mapped total : Nat) (threshold : Float) :
      SameEnd (.error (.belowThreshold mapped total threshold))
        (.error (.belowThreshold mapped total threshold))
  | done {a b : Replay} : b.lines = a.lines → b.unsampled = a.unsampled →
      b.tally = { a.tally with remapped := b.tally.remapped } → SameEnd (.ok a) (.ok b)

variable {o o' : Options} {es : List Event}

theorem run_error_iff {f : Failure} (hf : OfMapping f) :
    (run o es).answer = .error f ↔ ((Run.start o).feedAll es).answer = .error f := by
  constructor
  · intro h
    cases hfed : ((Run.start o).feedAll es).answer with
    | error f' =>
      rw [run_of_error hfed] at h
      cases h
      rfl
    | ok taken =>
      rw [run_of_ok hfed] at h
      split at h
      · cases h
        exact hf.elim
      · cases h
  · exact run_of_error

theorem sameEnd_of_twin {events events' : List Event} {samples : List ResolvedSample}
    (hthreshold : o'.threshold = o.threshold) {R : Space → Space → Prop}
    (h : Run.Twin R ((Run.start o).feedAll es).state ((Run.start o').feedAll es).state)
    (hok : ((Run.start o).feedAll es).answer = .ok (events, samples))
    (hok' : ((Run.start o').feedAll es).answer = .ok (events', samples)) :
    SameEnd (run o es).answer (run o' es).answer := by
  rw [run_of_ok hok, run_of_ok hok']
  obtain ⟨hsession, htally, -⟩ := h
  generalize ((Run.start o).feedAll es).state = r at hsession htally
  generalize ((Run.start o').feedAll es).state = r' at hsession htally
  have hmapped : r'.tally.mapped = r.tally.mapped := by rw [htally]
  have hsamples : r'.tally.samples = r.tally.samples := by rw [htally]
  have hiff : r'.tally.FallsShort o'.threshold ↔ r.tally.FallsShort o.threshold := by
    simp only [Tally.FallsShort, Tally.required, hmapped, hsamples, hthreshold]
  by_cases hshort : r.tally.FallsShort o.threshold
  · rw [if_pos hshort, if_pos (hiff.2 hshort), hmapped, hsamples, hthreshold]
    exact .below _ _ _
  · rw [if_neg hshort, if_neg fun h => hshort (hiff.1 h)]
    refine .done ?_ hsession.unsampled htally
    simp only [ofRun, hsession.images, hsession.commands]

/-- **The synthetic layout does not show in what is resolved.** Let two runs over a capture ask for
the same threshold, and let each of them either not remap or keep the offsets of a page. If neither
stops on a mapping, they end in the same way. With the same page size they stop on the same mapping
and for the same reason. And no mapping is ever found to have moved in its page. -/
theorem layout_invisible (es : List Event) (hthreshold : o'.threshold = o.threshold)
    (hk : o.Keeps) (hk' : o'.Keeps) :
    ((∀ f, OfMapping f → (run o es).answer ≠ .error f) →
      (∀ f, OfMapping f → (run o' es).answer ≠ .error f) →
      SameEnd (run o es).answer (run o' es).answer) ∧
    (o'.alignment = o.alignment → isPowerOfTwo o.alignment = true → ∀ f, OfMapping f →
      ((run o es).answer = .error f ↔ (run o' es).answer = .error f)) ∧
    (isPowerOfTwo o.alignment = true → ∀ real mapped,
      (run o es).answer ≠ .error (.startMoved real mapped)) := by
  refine ⟨?_, ?_, ?_⟩
  · intro hgoes hgoes'
    have hstart : Run.Twin SameSpans (.start o) (.start o') := .start hk hk' rfl
    cases hfed : ((Run.start o).feedAll es).answer with
    | error f =>
      obtain ⟨_, _, _, _, rfl⟩ := Run.feedAll_error hstart.session.steady.1 hk hfed
      exact absurd (run_of_error hfed) (hgoes _ trivial)
    | ok taken =>
      cases hfed' : ((Run.start o').feedAll es).answer with
      | error f =>
        obtain ⟨_, _, _, _, rfl⟩ := Run.feedAll_error hstart.session.steady.2 hk' hfed'
        exact absurd (run_of_error hfed') (hgoes' _ trivial)
      | ok taken' =>
        obtain ⟨hsame, hlast⟩ :=
          Run.feedAll_twin Space.indistinguishable_sameSpans hstart hfed hfed'
        rw [show taken' = (taken'.1, taken.2) by rw [← hsame]] at hfed'
        exact sameEnd_of_twin hthreshold hlast hfed hfed'
  · intro halign _ f hf
    have hstart : Run.Twin Eq (.start o) (.start o') := .start hk hk' (by rw [halign])
    rw [run_error_iff hf, run_error_iff hf]
    exact Run.feedAll_error_iff_of_eq hstart es f
  · intro hp real mapped h
    have hmapping : OfMapping (.startMoved real mapped) := trivial
    rw [run_error_iff hmapping] at h
    obtain ⟨_, _, _, _, hf⟩ := Run.feedAll_error (Session.Steady.start o) hk h
    cases hf

/-- One of two runs remaps, and the sample is written with another address; what it resolves to is
the same. An empty mapping stops two runs with the same page size, of which one remaps. -/
theorem layout_invisible_remapped :
    let es : List Event := [.mmap ⟨1, 1, 0x401000, 0x2000, 0, "a", false⟩,
      .mmap ⟨1, 1, 0x400000, 0x1000, 0, "b", false⟩, .sample ⟨1, 1, 0x400010, [0x402000], []⟩]
    let stopped : List Event := [.mmap ⟨1, 1, 0x401000, 0, 0, "a", false⟩]
    let f : Failure := .mappingRefused 0 1 "a" (.invalid 0x401000 0)
    let o : Options := ⟨true, Decimal.ofCount 95, 4096⟩
    let o' : Options := ⟨false, Decimal.ofCount 95, 0⟩
    let kept : Options := ⟨false, Decimal.ofCount 95, 4096⟩
    SameEnd (run o es).answer (run o' es).answer ∧
      (run o es).answer.toOption.map (fun a => a.events.getLast?) =
        some (some (.sample ⟨1, 1, 0x2010, [0x1000], []⟩)) ∧
      (run o stopped).answer = .error f ∧ (run kept stopped).answer = .error f ∧
      ∀ real mapped, (run o es).answer ≠ .error (.startMoved real mapped) := by
  intro es stopped f o o' kept
  have hp : isPowerOfTwo o.alignment = true := by decide
  have hk : o.Keeps := .inr hp
  have hk' : o'.Keeps := .inl rfl
  have hkept : kept.Keeps := .inl rfl
  have hthreshold : o'.threshold = o.threshold := rfl
  have hthreshold' : kept.threshold = o.threshold := rfl
  have hok : (run o es).answer.toOption.isSome = true := by decide +kernel
  have hok' : (run o' es).answer.toOption.isSome = true := by decide +kernel
  have hstop : (run o stopped).answer = .error f := rfl
  obtain ⟨hsame, -, hmoved⟩ := layout_invisible es hthreshold hk hk'
  obtain ⟨-, hiff, -⟩ := layout_invisible stopped hthreshold' hk hkept
  refine ⟨hsame ?_ ?_, by decide +kernel, hstop, (hiff rfl hp f trivial).1 hstop, hmoved hp⟩
  · intro f _ h
    rw [h] at hok
    cases hok
  · intro f _ h
    rw [h] at hok'
    cases hok'

end Replay
end Unslide
