import Unslide.Proofs.Commands
import Unslide.Proofs.Readdressing
import Unslide.Proofs.Provenance

/-!
# Unslide.Proofs.Prefixes

What comes later in a capture does not change what was written before. Samples are kept with the
numbers of images and commands, and the names are spelled out when the run is over. Until then the
tables may grow; but they grow at their ends only, so every number keeps the name that it had when
it was written down. And no number is ever written down that has no name.

* `Grows`: what a record does to the tables of names.
* `Attests`: what was found for a sample, the capture has given a name to.
* `feedAll_append_eq_ok`: a capture and what follows it.
* `grows_feedAll`, `attests_feedAll`: whole captures.
* `run_append`: replays.
-/

namespace Unslide

/-- The locations that were found for a sample. -/
def ResolvedSample.locations (x : ResolvedSample) : List Location :=
  x.ip.toList ++ x.callchain ++ x.branches.flatMap fun b => [b.source, b.target]

namespace Session

variable {s t u : Session} {x : ResolvedSample} {es : List Event}

/-- The tables of names grow at their ends. -/
structure Grows (s t : Session) : Prop where
  images : s.images.names <+: t.images.names
  commands : s.commands.names <+: t.commands.names

/-- What was found for a sample bears the names that the capture gives: an image the name of a file
that was mapped, and a command the name that a thread took. -/
structure Attests (s : Session) (es : List Event) (x : ResolvedSample) : Prop where
  locations : ∀ l ∈ x.locations,
    ∃ e, Event.mmap e ∈ es ∧ s.images.nameOf? l.image = some e.filename
  command : ∀ id, x.command = some id →
    ∃ e, Event.comm e ∈ es ∧ s.commands.nameOf? id = some e.comm

/-- Every command that a thread carries was taken by some thread in the capture. -/
def Commanded (s : Session) (es : List Event) : Prop :=
  ∀ thread id, s.commands.idOf? thread = some id →
    ∃ e, Event.comm e ∈ es ∧ s.commands.nameOf? id = some e.comm

/-! ## Tables of names -/

namespace Grows

theorem refl (s : Session) : s.Grows s := ⟨List.prefix_refl _, List.prefix_refl _⟩

theorem trans (hst : s.Grows t) (htu : t.Grows u) : s.Grows u :=
  ⟨hst.images.trans htu.images, hst.commands.trans htu.commands⟩

theorem of_eq (hi : t.images.names = s.images.names) (hc : t.commands.names = s.commands.names) :
    s.Grows t := by
  constructor
  · rw [hi]
  · rw [hc]

theorem nameOf?_images (h : s.Grows t) {image : Nat} {name : String}
    (hs : s.images.nameOf? image = some name) : t.images.nameOf? image = some name := by
  rw [Images.nameOf?_eq] at hs ⊢
  exact getElem?_of_grown h.images hs

end Grows

theorem grows_mapped (s : Session) (e : Mmap) (id : Nat) : s.Grows (s.mapped e id) where
  images := by
    rw [mapped, Images.names_intern]
    split
    · exact List.prefix_refl _
    · exact List.prefix_append _ _
  commands := List.prefix_refl _

theorem grows_register (s : Session) (e : Mmap) (id : Nat) :
    s.Grows (s.register e id).state := by
  have hmapped := grows_mapped s e id
  rcases state_register s e id with heq | heq
  · rw [heq]
    exact hmapped
  · rw [heq]
    exact ⟨hmapped.images, hmapped.commands⟩

theorem grows_fork (s : Session) (e : Lineage) : s.Grows (s.fork e).state := by
  have hnames : (if e.parent = e.child then s.commands
      else (s.commands.inherit e.child e.parent).1).names = s.commands.names := by
    split
    · rfl
    · exact Commands.names_inherit _ _ _
  simp only [fork]
  split <;> exact .of_eq rfl hnames

theorem grows_nameThread (s : Session) (e : Naming) : s.Grows (s.nameThread e).state where
  images := List.prefix_refl _
  commands := Commands.names_prefix_intern _ _

theorem grows_sample (s : Session) (e : Sample) : s.Grows (s.sample e).state :=
  .of_eq (names_sample s e) (congrArg Commands.names (opened_sample s e).commands)

namespace Attests

theorem grow (h : s.Attests es x) (hst : s.Grows t) (e : Event) : t.Attests (es ++ [e]) x where
  locations l hl := by
    obtain ⟨m, hm, hname⟩ := h.locations l hl
    exact ⟨m, List.mem_append_left _ hm, hst.nameOf?_images hname⟩
  command id hid := by
    obtain ⟨m, hm, hname⟩ := h.command id hid
    exact ⟨m, List.mem_append_left _ hm, Commands.nameOf?_of_grown hst.commands hname⟩

/-- A sample is spelled out the same, however much the tables grow. -/
theorem named_eq (h : s.Attests es x) (hst : s.Grows t) :
    Report.named t.images t.commands x = Report.named s.images s.commands x := by
  have hplace : ∀ l ∈ x.locations, Report.place t.images l = Report.place s.images l := by
    intro l hl
    obtain ⟨e, -, hname⟩ := h.locations l hl
    simp only [Report.place, hname, hst.nameOf?_images hname]
  have hip : x.ip.map (Report.place t.images) = x.ip.map (Report.place s.images) := by
    refine Option.map_congr fun l hl => hplace l ?_
    simp [ResolvedSample.locations, hl]
  have hcallchain : x.callchain.map (Report.place t.images) =
      x.callchain.map (Report.place s.images) := by
    refine List.map_congr_left fun l hl => hplace l ?_
    simp [ResolvedSample.locations, hl]
  have hbranches : x.branches.map (Report.jump t.images) =
      x.branches.map (Report.jump s.images) := by
    refine List.map_congr_left fun b hb => ?_
    have hmem : ∀ l ∈ [b.source, b.target], l ∈ x.locations := fun l hl =>
      List.mem_append_right _ (List.mem_flatMap.2 ⟨b, hb, hl⟩)
    simp only [Report.jump, hplace b.source (hmem _ (by simp)), hplace b.target (hmem _ (by simp))]
  have hcommand : x.command.bind t.commands.nameOf? = x.command.bind s.commands.nameOf? := by
    cases hid : x.command with
    | none => rfl
    | some id =>
      obtain ⟨e, -, hname⟩ := h.command id hid
      simp only [Option.bind_some, hname, Commands.nameOf?_of_grown hst.commands hname]
  simp only [Report.named, hip, hcallchain, hbranches, hcommand]

end Attests

/-! ## Samples -/

variable {look : Nat → Option Hit}

theorem mem_of_located {l : Location} {found : List (Option Location)} (h : l ∈ located found) :
    some l ∈ found := by
  induction found with
  | nil => cases h
  | cons first rest ih =>
    cases first with
    | none => cases h
    | some first =>
      rw [located, List.mem_cons] at h
      cases h with
      | inl heq =>
        rw [heq]
        exact List.mem_cons_self
      | inr hrest => exact List.mem_cons_of_mem _ (ih hrest)

theorem mem_of_jumps {bs : List Branch} {found : List ResolvedBranch}
    (h : (jumps look bs).resolved = some found) {b : ResolvedBranch} (hb : b ∈ found) :
    (∃ addr hit, look addr = some hit ∧ hit.location = b.source) ∧
      ∃ addr hit, look addr = some hit ∧ hit.location = b.target := by
  induction bs generalizing found with
  | nil =>
    cases h
    cases hb
  | cons first rest ih =>
    simp only [jumps] at h
    cases hsource : look first.source with
    | none =>
      rw [hsource] at h
      cases h
    | some source =>
      cases htarget : look first.target with
      | none =>
        rw [hsource, htarget] at h
        cases h
      | some target =>
        rw [hsource, htarget] at h
        obtain ⟨found', hfound', rfl⟩ := Option.map_eq_some_iff.1 h
        rw [List.mem_cons] at hb
        cases hb with
        | inl heq =>
          rw [heq]
          exact ⟨⟨_, source, hsource, rfl⟩, ⟨_, target, htarget, rfl⟩⟩
        | inr hb => exact ih hfound' hb

/-- Every location of a resolved sample is that of an address that was found. -/
theorem exists_of_mem_locations {command : Option Nat} {e : Sample} {l : Location}
    (h : l ∈ (resolution look command e).2.locations) :
    ∃ addr hit, look addr = some hit ∧ hit.location = l := by
  simp only [ResolvedSample.locations, resolution, List.mem_append, Option.mem_toList,
    List.mem_flatMap] at h
  rcases h with (hip | hframe) | ⟨b, hb, hl⟩
  · obtain ⟨hit, hhit, heq⟩ := Option.map_eq_some_iff.1 hip
    exact ⟨_, hit, hhit, heq⟩
  · obtain ⟨addr, -, hfound⟩ := List.mem_map.1 (mem_of_located hframe)
    obtain ⟨hit, hhit, heq⟩ := Option.map_eq_some_iff.1 hfound
    exact ⟨_, hit, hhit, heq⟩
  · cases hresolved : (stack look e.branches).resolved with
    | none =>
      rw [hresolved] at hb
      cases hb
    | some found =>
      rw [hresolved, Option.getD_some] at hb
      have hsome : (stack look e.branches).resolved.isSome = true := by
        rw [hresolved]
        rfl
      have hstray := stray_of_stack hsome
      have hjumps : (jumps look (e.branches.takeWhile fun b => !b.isNull)).resolved =
          some found := by
        rw [← hresolved]
        simp only [stack, hstray.1]
      obtain ⟨hsource, htarget⟩ := mem_of_jumps hjumps hb
      rw [List.mem_pair] at hl
      cases hl with
      | inl heq => exact heq ▸ hsource
      | inr heq => exact heq ▸ htarget

end Session

/-! ## Runs -/

namespace Run

variable {r : Run} {o : Options} {es : List Event}

theorem grows_feed (r : Run) (e : Event) : r.session.Grows (r.feed e).state.session := by
  cases e with
  | mmap e => exact Session.grows_register r.session e r.count
  | fork e => exact Session.grows_fork r.session e
  | exit e => exact .refl _
  | comm e => exact Session.grows_nameThread r.session e
  | sample e => exact Session.grows_sample r.session e

theorem grows_feedAll (r : Run) (es : List Event) :
    r.session.Grows (r.feedAll es).state.session := by
  induction es generalizing r with
  | nil => exact .refl _
  | cons e rest ih =>
    cases hfound : (r.feed e).answer.2 with
    | error f =>
      rw [state_feedAll_cons_error hfound]
      exact grows_feed r e
    | ok found =>
      rw [state_feedAll_cons_ok hfound]
      exact (grows_feed r e).trans (ih _)

/-- A capture that is taken to its end is its first part, and what follows that. -/
theorem feedAll_append_eq_ok {more : List Event} {events : List Event}
    {samples : List ResolvedSample} (h : (r.feedAll (es ++ more)).answer = .ok (events, samples)) :
    ∃ events₁ samples₁ events₂ samples₂, (r.feedAll es).answer = .ok (events₁, samples₁) ∧
      ((r.feedAll es).state.feedAll more).answer = .ok (events₂, samples₂) ∧
      events = events₁ ++ events₂ ∧ samples = samples₁ ++ samples₂ := by
  induction es generalizing r events samples with
  | nil => exact ⟨[], [], events, samples, rfl, h, rfl, rfl⟩
  | cons e rest ih =>
    obtain ⟨found, events', samples', hfound, hrest, rfl, rfl⟩ := feedAll_cons_eq_ok h
    obtain ⟨events₁, samples₁, events₂, samples₂, hfirst, hmore, rfl, rfl⟩ := ih hrest
    refine ⟨(r.feed e).answer.1 :: events₁, found.toList ++ samples₁, events₂, samples₂, ?_, ?_,
      rfl, (List.append_assoc _ _ _).symm⟩
    · rw [answer_feedAll_cons_ok hfound, hfirst]
      rfl
    · rw [state_feedAll_cons_ok hfound]
      exact hmore

theorem state_feedAll_append {more : List Event} {events : List Event}
    {samples : List ResolvedSample} (h : (r.feedAll es).answer = .ok (events, samples)) :
    (r.feedAll (es ++ more)).state = ((r.feedAll es).state.feedAll more).state := by
  induction es generalizing r events samples with
  | nil => rfl
  | cons e rest ih =>
    obtain ⟨found, events', samples', hfound, hrest, -, -⟩ := feedAll_cons_eq_ok h
    rw [List.cons_append, state_feedAll_cons_ok hfound, ih hrest, state_feedAll_cons_ok hfound]

/-- A run that does not stop goes through all records. -/
theorem state_feedAll_of_ok {events : List Event} {samples : List ResolvedSample}
    (h : (r.feedAll es).answer = .ok (events, samples)) : (r.feedAll es).state = r.through es := by
  induction es generalizing r events samples with
  | nil => rfl
  | cons e rest ih =>
    obtain ⟨found, events', samples', hfound, hrest, -, -⟩ := feedAll_cons_eq_ok h
    rw [state_feedAll_cons_ok hfound]
    exact ih hrest

theorem commanded_feed (h : r.session.Commanded es) (e : Event) :
    (r.feed e).state.session.Commanded (es ++ [e]) := by
  have hkept : ∀ {thread id}, r.session.commands.idOf? thread = some id →
      ∃ f, Event.comm f ∈ es ++ [e] ∧
        (r.feed e).state.session.commands.nameOf? id = some f.comm := by
    intro thread id hid
    obtain ⟨f, hf, hname⟩ := h thread id hid
    exact ⟨f, List.mem_append_left _ hf,
      Commands.nameOf?_of_grown (grows_feed r e).commands hname⟩
  intro thread id hid
  cases e with
  | mmap e =>
    have hcommands : (r.feed (.mmap e)).state.session.commands = r.session.commands := by
      rcases Session.state_register r.session e r.count with heq | heq <;>
        simp only [feed, heq] <;> rfl
    rw [hcommands] at hid
    exact hkept hid
  | fork e =>
    have hcommands : (r.feed (.fork e)).state.session.commands =
        if e.parent = e.child then r.session.commands
        else (r.session.commands.inherit e.child e.parent).1 := by
      simp only [feed, Session.fork]
      split <;> rfl
    rw [hcommands] at hid
    split at hid
    · exact hkept hid
    · obtain ⟨carrier, hcarrier⟩ := Commands.idOf?_of_inherit hid
      exact hkept hcarrier
  | exit e => exact hkept hid
  | comm e =>
    by_cases heq : thread = e.thread
    · have hown : (r.session.commands.assign e.thread e.comm).1.idOf? thread = some id := hid
      rw [heq, Commands.idOf?_assign_self, Option.some.injEq] at hown
      refine ⟨e, List.mem_append_right _ List.mem_cons_self, ?_⟩
      rw [← hown]
      exact Commands.nameOf?_assign _ _ _
    · have hother : (r.session.commands.assign e.thread e.comm).1.idOf? thread = some id := hid
      rw [Commands.idOf?_assign_of_ne _ _ heq] at hother
      exact hkept hother
  | sample e =>
    have hcommands := (Session.opened_sample r.session e).commands
    have hown : (r.session.sample e).state.commands.idOf? thread = some id := hid
    rw [hcommands] at hown
    exact hkept hown

theorem commanded_through (o : Options) (es : List Event) :
    ((start o).through es).session.Commanded es := by
  induction es using List.reverseRecOn with
  | nil =>
    intro thread id hid
    cases hid
  | append_singleton es e ih =>
    rw [through_concat]
    exact commanded_feed ih e

/-- What is found for a sample bears names of the capture. -/
theorem attests_feed {e : Event} {found : Option ResolvedSample} {x : ResolvedSample}
    (h : (((start o).through es).feed e).answer.2 = .ok found) (hx : x ∈ found.toList) :
    ((start o).through es).session.Attests es x := by
  cases e with
  | mmap e =>
    rw [found_feed_mmap h] at hx
    cases hx
  | fork e =>
    cases h
    cases hx
  | exit e =>
    cases h
    cases hx
  | comm e =>
    cases h
    cases hx
  | sample e =>
    cases h
    rw [Option.toList_some, List.mem_singleton, Session.answer_sample] at hx
    subst hx
    have hsteady : ((start o).through es).session.Steady := steady_through (.start o) es
    constructor
    · intro l hl
      obtain ⟨addr, hit, hhit, heq⟩ := Session.exists_of_mem_locations hl
      obtain ⟨id, m, _, hm, -, -, hname, -⟩ := (Ledger.through o es).hit hsteady hhit
      rw [heq] at hname
      exact ⟨m, List.mem_of_getElem? hm, hname⟩
    · intro id hid
      exact commanded_through o es _ _ hid

theorem attests_feedAll {events : List Event} {samples : List ResolvedSample}
    (h : ((start o).feedAll es).answer = .ok (events, samples)) :
    ∀ x ∈ samples, ((start o).feedAll es).state.session.Attests es x := by
  induction es using List.reverseRecOn generalizing events samples with
  | nil =>
    cases h
    intro x hx
    cases hx
  | append_singleton es e ih =>
    obtain ⟨events₁, samples₁, events₂, samples₂, hfirst, hlast, -, rfl⟩ := feedAll_append_eq_ok h
    obtain ⟨found, events', samples', hfound, hnone, -, rfl⟩ := feedAll_cons_eq_ok hlast
    cases hnone
    have hgrows : ((start o).feedAll es).state.session.Grows
        ((start o).feedAll (es ++ [e])).state.session := by
      rw [state_feedAll_append hfirst]
      exact grows_feedAll _ _
    intro x hx
    rw [List.append_nil, List.mem_append] at hx
    cases hx with
    | inl hx => exact (ih hfirst x hx).grow hgrows e
    | inr hx =>
      rw [state_feedAll_of_ok hfirst] at hfound hgrows
      exact (attests_feed hfound hx).grow hgrows e

end Run

namespace Replay

variable {o : Options} {es more : List Event}

/-- **What comes later does not change what was written before.** Let a capture be replayed, and a
longer one that begins with it, each to a good end. Whatever mappings, names, forks and samples
follow, the records that were written for the first one are the first records that are written for
the longer one, and so are the lines, with all names spelled out; there are as many of them as there
are samples. And every image and every command that a line speaks of is in its table, under the name
of a file that was mapped, or of a command that was taken, in the capture. -/
theorem run_append {first whole : Replay} (hfirst : (run o es).answer = .ok first)
    (hwhole : (run o (es ++ more)).answer = .ok whole) :
    whole.events.take es.length = first.events ∧
      whole.lines.take (samplesOf es).length = first.lines ∧
      ∃ samples, ((Run.start o).feedAll (es ++ more)).answer = .ok (whole.events, samples) ∧
        let s := ((Run.start o).feedAll (es ++ more)).state.session
        whole.lines = samples.map (Report.named s.images s.commands) ∧
          ∀ x ∈ samples, s.Attests (es ++ more) x := by
  obtain ⟨samples, hfed, hout⟩ := feedAll_of_run_ok hwhole
  obtain ⟨events₁, samples₁, events₂, samples₂, hfed₁, -, hevents, rfl⟩ :=
    Run.feedAll_append_eq_ok hfed
  obtain ⟨samples', hfed', hout'⟩ := feedAll_of_run_ok hfirst
  rw [hfed', Except.ok.injEq, Prod.mk.injEq] at hfed₁
  obtain ⟨rfl, rfl⟩ := hfed₁
  obtain ⟨hlength, -, -, hthreads, -⟩ := readdressed_run hfirst
  have hcount : first.lines.length = (samplesOf es).length := by
    rw [← List.length_map Report.Line.thread, hthreads, List.length_map]
  have hgrows : ((Run.start o).feedAll es).state.session.Grows
      ((Run.start o).feedAll (es ++ more)).state.session := by
    rw [Run.state_feedAll_append hfed']
    exact Run.grows_feedAll _ _
  refine ⟨?events, ?lines, samples' ++ samples₂, hfed, congrArg lines hout,
    Run.attests_feedAll hfed⟩
  case events => rw [hevents, List.take_left' hlength]
  case lines =>
    rw [← hcount, hout, hout']
    simp only [ofRun, List.map_append, List.length_map]
    rw [List.take_left' (by rw [List.length_map])]
    exact List.map_congr_left fun x hx => (Run.attests_feedAll hfed' x hx).named_eq hgrows

/-- What follows the first sample maps another file over the one that it lies in, gives its thread
another command, and is sampled in a child. -/
theorem run_append_mapped_over :
    let o : Options := ⟨true, Decimal.ofCount 95, 0x1000⟩
    let es : List Event :=
      [.mmap ⟨7, 7, 0x10000, 0x2000, 0, "a", false⟩, .comm ⟨7, 7, "seven"⟩,
        .sample ⟨7, 7, 0x10010, [], []⟩]
    let more : List Event :=
      [.mmap ⟨7, 7, 0x10000, 0x1000, 0, "b", false⟩, .comm ⟨7, 7, "eight"⟩, .fork ⟨8, 7, 8, 7⟩,
        .sample ⟨8, 8, 0x10010, [0x11010], []⟩]
    ∃ first whole, (run o es).answer = .ok first ∧ (run o (es ++ more)).answer = .ok whole ∧
      whole.events.take 3 = first.events ∧ whole.lines.take 1 = first.lines ∧
      whole.lines =
        [⟨⟨7, 7⟩, some "seven", some ⟨"a", 0x10⟩, [], [], true⟩,
          ⟨⟨8, 8⟩, some "eight", some ⟨"b", 0x10⟩, [⟨"a", 0x1010⟩], [], true⟩] := by
  intro o es more
  have hfirst : (run o es).answer.toOption.map (fun _ => ()) = some () := by decide +kernel
  have hwhole : (run o (es ++ more)).answer.toOption.map lines = some
      [⟨⟨7, 7⟩, some "seven", some ⟨"a", 0x10⟩, [], [], true⟩,
        ⟨⟨8, 8⟩, some "eight", some ⟨"b", 0x10⟩, [⟨"a", 0x1010⟩], [], true⟩] := by decide +kernel
  obtain ⟨first, hfirst, -⟩ := exists_of_map_answer hfirst
  obtain ⟨whole, hwhole, hlines⟩ := exists_of_map_answer hwhole
  obtain ⟨hevents, htake, -⟩ := run_append hfirst hwhole
  exact ⟨first, whole, hfirst, hwhole, hevents, htake, hlines⟩

end Replay
end Unslide
