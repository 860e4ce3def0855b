import Unslide.Proofs.Run
import Unslide.Proofs.Session.Rereading
import Unslide.Proofs.Tally

/-!
# Unslide.Proofs.Rereading

What a remapped capture still says. A reader takes the remapped records as they are, and attributes
its addresses to images and offsets. The records do not tell where the pieces of a region are that a
mapping cuts; so the reader goes wrong where first fit puts a piece into an older hole. As long as
the pieces stay where the region was, and nothing that was rewritten changed its kind, the reader
finds for every complete sample what was found when it was remapped.

* `Rereads.feed`, `Rereads.feedAll`: a record, and a whole capture.
* `reread_attribution`: complete samples are attributed alike.
* `reread_of_moved_piece`: what becomes of a sample in a piece that moved.
-/

namespace Unslide

namespace Event

/-- The bytes that a record maps. -/
def mappedLen : Event → Nat
  | .mmap e => e.len
  | _ => 0

def sample? : Event → Option Sample
  | .sample e => some e
  | _ => none

end Event

/-- The samples of a capture, in order. -/
def samplesOf (es : List Event) : List Sample := es.filterMap Event.sample?

namespace Run

/-- Wherever a mapping of the capture cuts a region, its pieces stay where it was. -/
def CutsInPlace (r : Run) (es : List Event) : Prop :=
  ∀ before e after, es = before ++ .mmap e :: after →
    ((r.through before).session.spaceOf e.pid).CutsInPlace
      ((e.geometry (r.through before).count).request (r.through before).count)

/-- The samples of two captures were resolved alike, one by one: wherever a sample was complete, and
nothing in it changed its kind, at the same locations. -/
inductive ReadAlike :
    List Event → List Event → List ResolvedSample → List ResolvedSample → Prop where
  | nil : ReadAlike [] [] [] []
  | sample {e f : Sample} {x y : ResolvedSample} {es fs : List Event}
      {xs ys : List ResolvedSample} :
      (x.complete = true → e.SameKinds f → x.SameLocations y) → ReadAlike es fs xs ys →
      ReadAlike (.sample e :: es) (.sample f :: fs) (x :: xs) (y :: ys)
  | other {e f : Event} {es fs : List Event} {xs ys : List ResolvedSample} :
      e.sample? = none → f.sample? = none → ReadAlike es fs xs ys →
      ReadAlike (e :: es) (f :: fs) xs ys

variable {r r' : Run} {n : Nat} {e : Event} {rest es fs : List Event}

theorem cutsInPlace_nil (r : Run) : r.CutsInPlace [] := by
  intro before m after hes
  cases before <;> cases hes

theorem cutsInPlace_cons :
    r.CutsInPlace (e :: rest) ↔
      (∀ m, e = .mmap m →
        (r.session.spaceOf m.pid).CutsInPlace ((m.geometry r.count).request r.count)) ∧
      (r.feed e).state.CutsInPlace rest := by
  constructor
  · intro h
    refine ⟨?_, fun before m after hrest => h (e :: before) m after (by rw [hrest]; rfl)⟩
    rintro m rfl
    exact h [] m rest rfl
  · rintro ⟨hhead, htail⟩ before m after hes
    cases before with
    | nil =>
      cases hes
      exact hhead m rfl
    | cons first before =>
      cases hes
      exact htail before m after rfl

theorem ReadAlike.sameLocations {xs ys : List ResolvedSample} (h : ReadAlike es fs xs ys) {i : Nat}
    {x : ResolvedSample} {e f : Sample} (hx : xs[i]? = some x) (he : (samplesOf es)[i]? = some e)
    (hf : (samplesOf fs)[i]? = some f) (hc : x.complete = true) (hkinds : e.SameKinds f) :
    ∃ y, ys[i]? = some y ∧ x.SameLocations y := by
  induction h generalizing i with
  | nil => cases hx
  | sample halike _ ih =>
    cases i with
    | zero =>
      cases hx
      cases he
      cases hf
      exact ⟨_, rfl, halike hc hkinds⟩
    | succ i => exact ih hx he hf
  | other hnone hnone' _ ih =>
    simp only [samplesOf, List.filterMap_cons_none hnone] at he
    simp only [samplesOf, List.filterMap_cons_none hnone'] at hf
    exact ih hx he hf

/-- The run `r` remaps, and `r'` reads what `r` wrote. -/
structure Rereads (n : Nat) (r r' : Run) : Prop where
  session : Session.Rereads n r.session r'.session
  count : r'.count = r.count

namespace Rereads

theorem start {o : Options} (hremap : o.remap = true) (hpage : isPowerOfTwo o.alignment = true)
    (threshold : Float) : Rereads 0 (.start o) (.start ⟨false, threshold, 0⟩) where
  session :=
    { steady := ⟨.start o, .start _⟩
      remaps := ⟨hremap, hpage⟩
      reads := rfl
      page := rfl
      names := rfl
      records := fun _ => rfl
      processes := .start }
  count := rfl

/-- A record that was taken is taken by the reader as it was written, and a sample is resolved
alike. -/
theorem feed (h : Rereads n r r') (hcuts : r.CutsInPlace (e :: rest))
    {found : Option ResolvedSample} (hfound : (r.feed e).answer.2 = .ok found)
    (hroom : n + (r.feed e).answer.1.mappedLen ≤ top) :
    ∃ found', (r'.feed (r.feed e).answer.1).answer.2 = .ok found' ∧
      Rereads (n + (r.feed e).answer.1.mappedLen) (r.feed e).state
        (r'.feed (r.feed e).answer.1).state ∧
      ∀ {fs xs ys}, ReadAlike rest fs xs ys →
        ReadAlike (e :: rest) ((r.feed e).answer.1 :: fs) (found.toList ++ xs)
          (found'.toList ++ ys) := by
  have hcount : ∀ f, (r'.feed f).state.count = (r.feed e).state.count := by
    intro f
    rw [count_feed, count_feed, h.count]
  cases e with
  | mmap m =>
    have hok := placed_of_feed_ok hfound
    obtain ⟨hgranted, hsession⟩ := h.session.known hok ((cutsInPlace_cons.1 hcuts).1 m rfl) hroom
    obtain ⟨-, _, -, hanswer⟩ :=
      Session.register_granted h.session.steady.1 h.session.keeps.1 hok
    have hnone : found = none := by
      simp only [Run.feed, hanswer] at hfound
      cases hfound
      rfl
    subst hnone
    refine ⟨none, ?_, ⟨?_, hcount _⟩, fun halike => .other rfl rfl halike⟩
    · simp only [Run.feed, h.count, hgranted]
      rfl
    · simp only [Run.feed, h.count]
      exact hsession
  | fork m =>
    cases hfound
    exact ⟨none, rfl, ⟨h.session.fork m, hcount _⟩, fun halike => .other rfl rfl halike⟩
  | exit m =>
    cases hfound
    exact ⟨none, rfl, ⟨h.session, hcount _⟩, fun halike => .other rfl rfl halike⟩
  | comm m =>
    cases hfound
    exact ⟨none, rfl, ⟨h.session.nameThread m, hcount _⟩, fun halike => .other rfl rfl halike⟩
  | sample m =>
    cases hfound
    exact ⟨_, rfl, ⟨h.session.sample rfl, hcount _⟩,
      fun halike => .sample (fun hc hkinds => h.session.resolved hc hkinds) halike⟩

/-- A capture that was taken to its end is taken to its end by the reader, as it was written, and
its samples are resolved alike. -/
theorem feedAll (h : Rereads n r r') (hcuts : r.CutsInPlace es) {events : List Event}
    {samples : List ResolvedSample} (hok : (r.feedAll es).answer = .ok (events, samples))
    (hroom : n + (events.map Event.mappedLen).sum ≤ top) :
    ∃ events' samples', (r'.feedAll events).answer = .ok (events', samples') ∧
      (∃ m, Rereads m (r.feedAll es).state (r'.feedAll events).state) ∧
      ReadAlike es events samples samples' := by
  induction es generalizing n r r' events samples with
  | nil =>
    cases hok
    exact ⟨[], [], rfl, ⟨n, h⟩, .nil⟩
  | cons e rest ih =>
    obtain ⟨found, tail, more, hfound, hrest, rfl, rfl⟩ := feedAll_cons_eq_ok hok
    rw [List.map_cons, List.sum_cons, ← Nat.add_assoc] at hroom
    obtain ⟨found', hfound', hnext, halike⟩ :=
      h.feed hcuts hfound (Nat.le_trans (Nat.le_add_right _ _) hroom)
    obtain ⟨events', samples', hrest', hlast, hothers⟩ :=
      ih hnext (cutsInPlace_cons.1 hcuts).2 hrest hroom
    refine ⟨(r'.feed (r.feed e).answer.1).answer.1 :: events', found'.toList ++ samples', ?_, ?_,
      halike hothers⟩
    · rw [answer_feedAll_cons_ok hfound', hrest']
      rfl
    · rw [state_feedAll_cons_ok hfound, state_feedAll_cons_ok hfound']
      exact hlast

end Rereads

end Run

namespace Report

/-- The same image is meant by tables of the same names. -/
theorem place_congr {t u : Images} (h : u.names = t.names) : place u = place t := by
  funext l
  simp only [place, Images.nameOf?_eq, h]

theorem jump_congr {t u : Images} (h : u.names = t.names) : jump u = jump t := by
  funext b
  simp only [jump, place_congr h]

end Report

namespace Replay

variable {o : Options} {es : List Event}

theorem getElem?_lines (r : Run) (events : List Event) (samples : List ResolvedSample) (i : Nat) :
    (ofRun r events samples).lines[i]? =
      samples[i]?.map (Report.named r.session.images r.session.commands) :=
  List.getElem?_map

/-- **What a remapped capture still says.** Let a capture be remapped, keeping page offsets, and let
all that it maps fit into the address space together. If no mapping that cuts a region moved its
pieces, then the remapped records are replayed as they are without a failure; and for every sample
that was complete, the same images and offsets are found, as long as no address became a marker, and
no branch padding, when it was rewritten. -/
theorem reread_attribution {out : Replay} (hremap : o.remap = true)
    (hpage : isPowerOfTwo o.alignment = true) (hrun : (run o es).answer = .ok out)
    (hcuts : (Run.start o).CutsInPlace es)
    (hroom : (out.events.map Event.mappedLen).sum ≤ top) :
    ∃ out', (run ⟨false, Decimal.ofCount 0, 0⟩ out.events).answer = .ok out' ∧
      ∀ (i : Nat) (line : Report.Line) (e f : Sample),
        out.lines[i]? = some line → line.complete = true →
        (samplesOf es)[i]? = some e → (samplesOf out.events)[i]? = some f → e.SameKinds f →
        ∃ line' : Report.Line, out'.lines[i]? = some line' ∧ line'.ip = line.ip ∧
          line'.callchain = line.callchain ∧ line'.branches = line.branches := by
  obtain ⟨samples, hfed, hout⟩ := feedAll_of_run_ok hrun
  have hstart := Run.Rereads.start hremap hpage (Decimal.ofCount 0)
  obtain ⟨events', samples', hfed', ⟨m, hlast⟩, halike⟩ :=
    hstart.feedAll hcuts hfed (by rwa [Nat.zero_add])
  have hnames := hlast.session.names
  have hread := run_of_ok hfed'
  rw [if_neg (Tally.not_fallsShort_zero _)] at hread
  refine ⟨_, hread, ?_⟩
  intro i line e f hline hc he hf hkinds
  rw [hout, getElem?_lines, Option.map_eq_some_iff] at hline
  obtain ⟨x, hx, rfl⟩ := hline
  obtain ⟨y, hy, hip, hcallchain, hbranches⟩ := halike.sameLocations hx he hf hc hkinds
  refine ⟨_, (getElem?_lines _ _ _ _).trans (congrArg _ hy), ?_, ?_, ?_⟩
  · simp only [Report.named, hip, Report.place_congr hnames]
  · simp only [Report.named, hcallchain, Report.place_congr hnames]
  · simp only [Report.named, hbranches, Report.jump_congr hnames]

/-- A page in the middle of a region is mapped again, and the pages around it stay in place. -/
theorem reread_attribution_middle_page :
    let o : Options := ⟨true, Decimal.ofCount 95, 0x1000⟩
    let es : List Event :=
      [.mmap ⟨7, 7, 0x10000, 0x3000, 0, "a", false⟩,
        .mmap ⟨7, 7, 0x11000, 0x1000, 0x5000, "b", false⟩,
        .sample ⟨7, 7, 0x12010, [top, 0x11020], [⟨0x10030, 0x12040, true⟩, .null]⟩]
    ∃ out out', (run o es).answer = .ok out ∧ isPowerOfTwo o.alignment = true ∧
      (Run.start o).CutsInPlace es ∧ (out.events.map Event.mappedLen).sum ≤ top ∧
      (run ⟨false, Decimal.ofCount 0, 0⟩ out.events).answer = .ok out' ∧
      ∃ line' : Report.Line, out'.lines[0]? = some line' ∧ line'.ip = some ⟨"a", 0x2010⟩ ∧
        line'.callchain = [⟨"b", 0x5020⟩] ∧
        line'.branches = [⟨⟨"a", 0x30⟩, ⟨"a", 0x2040⟩, false⟩] := by
  intro o es
  have hgiven : (run o es).answer.toOption.map (fun out => (out.events, out.lines)) = some
      ([.mmap ⟨7, 7, 0, 0x3000, 0, "a", false⟩, .mmap ⟨7, 7, 0x1000, 0x1000, 0x5000, "b", false⟩,
        .sample ⟨7, 7, 0x2010, [top, 0x1020], [⟨0x30, 0x2040, true⟩, .null]⟩],
      [⟨⟨7, 7⟩, none, some ⟨"a", 0x2010⟩, [⟨"b", 0x5020⟩], [⟨⟨"a", 0x30⟩, ⟨"a", 0x2040⟩, false⟩],
        true⟩]) := by decide +kernel
  have hcuts : (Run.start o).CutsInPlace es := by
    have hsteady : (Run.start o).session.Steady := .start o
    refine Run.cutsInPlace_cons.2 ⟨?_, Run.cutsInPlace_cons.2 ⟨?_, Run.cutsInPlace_cons.2
      ⟨by rintro m ⟨⟩, Run.cutsInPlace_nil _⟩⟩⟩
    · rintro m ⟨⟩
      exact Space.cutsInPlace_of_pieces (hsteady.sound_spaceOf 7) (by decide +kernel)
    · rintro m ⟨⟩
      exact Space.cutsInPlace_of_pieces ((Run.steady_feed hsteady _).sound_spaceOf 7)
        (by decide +kernel)
  obtain ⟨out, hrun, hout⟩ := exists_of_map_answer hgiven
  obtain ⟨hevents, hlines⟩ := Prod.mk.inj hout
  have hroom : (out.events.map Event.mappedLen).sum ≤ top := by
    rw [hevents]
    decide
  have hfirst : (samplesOf out.events)[0]? =
      some ⟨7, 7, 0x2010, [top, 0x1020], [⟨0x30, 0x2040, true⟩, .null]⟩ := by
    rw [hevents]
    rfl
  obtain ⟨out', hread, hfound⟩ := reread_attribution rfl (by decide) hrun hcuts hroom
  refine ⟨out, out', hrun, by decide, hcuts, hroom, hread, ?_⟩
  exact hfound 0 _ _ _ (by rw [hlines]; rfl) rfl rfl hfirst
    ⟨.cons (by decide) (.cons (by decide) .nil), .cons (by decide) (.cons (by decide) .nil)⟩

/-- When the page in the middle of `b` is mapped again, the page before it is put where `a` was.
Nothing that is written tells of it; so a reader takes the sample, which lies in `b`, to lie in
`a`. -/
theorem reread_of_moved_piece :
    let o : Options := ⟨true, Decimal.ofCount 0, 0x1000⟩
    let es : List Event :=
      [.mmap ⟨7, 7, 0x10000, 0x1000, 0, "a", false⟩, .mmap ⟨7, 7, 0x20000, 0x3000, 0, "b", false⟩,
        .mmap ⟨7, 7, 0x10000, 0x2000, 0, "c", false⟩, .mmap ⟨7, 7, 0x21000, 0x1000, 0, "d", false⟩,
        .sample ⟨7, 7, 0x20010, [], []⟩]
    ∃ out out' line line', (run o es).answer = .ok out ∧
      (run ⟨false, Decimal.ofCount 0, 0⟩ out.events).answer = .ok out' ∧
      out.lines[0]? = some line ∧ line.complete = true ∧ line.ip = some ⟨"b", 0x10⟩ ∧
      out'.lines[0]? = some line' ∧ line'.ip = some ⟨"a", 0x10⟩ := by
  intro o es
  have hgiven : (run o es).answer.toOption.map (fun out => (out.events, out.lines)) = some
      ([.mmap ⟨7, 7, 0, 0x1000, 0, "a", false⟩, .mmap ⟨7, 7, 0x1000, 0x3000, 0, "b", false⟩,
        .mmap ⟨7, 7, 0x4000, 0x2000, 0, "c", false⟩, .mmap ⟨7, 7, 0x1000, 0x1000, 0, "d", false⟩,
        .sample ⟨7, 7, 0x10, [], []⟩],
      [⟨⟨7, 7⟩, none, some ⟨"b", 0x10⟩, [], [], true⟩]) := by decide +kernel
  obtain ⟨out, hrun, hout⟩ := exists_of_map_answer hgiven
  obtain ⟨hevents, hlines⟩ := Prod.mk.inj hout
  have hread : (run ⟨false, Decimal.ofCount 0, 0⟩ out.events).answer.toOption.map Replay.lines =
      some [⟨⟨7, 7⟩, none, some ⟨"a", 0x10⟩, [], [], true⟩] := by
    rw [hevents]
    decide +kernel
  obtain ⟨out', hrun', hlines'⟩ := exists_of_map_answer hread
  exact ⟨out, out', _, _, hrun, hrun', by rw [hlines]; rfl, rfl, rfl, by rw [hlines']; rfl, rfl⟩

end Replay
end Unslide
