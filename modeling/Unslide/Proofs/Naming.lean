import Unslide.Proofs.Prefixes

/-!
# Unslide.Proofs.Naming

The tables of names over whole runs. What a thread is called is told by a plain map that follows the
names and the forks of a capture (`Carriers`), and a sample bears the name that its thread had at
that moment, although names are spelled out only when the run is over. The images are the files of
the mappings so far, in the order in which they first appeared, whether they were mapped or refused.

* `tells_commands_feed`, `registers_feed`: one more record.
* `carried_feedAll`: the names of all samples of a capture.
* `commands_follow_carriers`: commands.
* `images_registered`: images.
-/

namespace Unslide

/-- The names that the threads of samples have when these are taken, in order. -/
def Carriers.atSamples (m : Carriers) : List Event → List (Option String)
  | [] => []
  | e :: rest => (e.sample?.map fun f => m f.thread).toList ++ (m.follow e).atSamples rest

/-- The file that a record maps, and whether it is said to be the kernel's. -/
def Event.file? : Event → Option (String × Bool)
  | .mmap e => some (e.filename, e.kernel)
  | .fork _ => none
  | .exit _ => none
  | .comm _ => none
  | .sample _ => none

namespace Session

variable {s : Session} {asked : List (String × Bool)}

theorem registers_resolve (h : s.images.Registers asked) (addr : Nat) (thread : Thread) :
    (s.resolve addr thread).state.images.Registers asked := by
  simp only [resolve]
  split
  · exact h
  · exact h
  · exact h.record _ _
  · exact h.record _ _

theorem registers_resolveAll (h : s.images.Registers asked) (thread : Thread)
    (addrs : List Nat) : (s.resolveAll thread addrs).images.Registers asked := by
  induction addrs generalizing s with
  | nil => exact h
  | cons addr rest ih => exact ih (registers_resolve h addr thread)

end Session

namespace Run

variable {r : Run} {o : Options} {es : List Event} {m : Carriers} {asked : List (String × Bool)}

theorem through_append (r : Run) (es more : List Event) :
    r.through (es ++ more) = (r.through es).through more := List.foldl_append

theorem grows_through (r : Run) (es : List Event) : r.session.Grows (r.through es).session := by
  induction es generalizing r with
  | nil => exact .refl _
  | cons e rest ih => exact (grows_feed r e).trans (ih _)

/-! ## Commands -/

theorem commands_feed (r : Run) (e : Event) :
    (r.feed e).state.session.commands = r.session.commands.performAll (Commands.callsOf e) := by
  cases e with
  | mmap e =>
    rcases Session.state_register r.session e r.count with heq | heq <;>
      simp only [feed, heq] <;> rfl
  | fork e =>
    simp only [feed, Session.fork, Commands.callsOf]
    split <;> split <;> rfl
  | exit e => rfl
  | comm e => rfl
  | sample e => exact (Session.opened_sample r.session e).commands

theorem commands_through (r : Run) (es : List Event) :
    (r.through es).session.commands =
      r.session.commands.performAll (es.flatMap Commands.callsOf) := by
  induction es generalizing r with
  | nil => rfl
  | cons e rest ih =>
    rw [List.flatMap_cons, Commands.performAll_append, ← commands_feed]
    exact ih _

theorem tells_commands_feed (h : r.session.commands.Tells m) (e : Event) :
    (r.feed e).state.session.commands.Tells (m.follow e) := by
  rw [commands_feed]
  exact h.follow e

theorem tells_commands (o : Options) (es : List Event) :
    ((start o).through es).session.commands.Tells (.ofCapture es) := by
  induction es using List.reverseRecOn with
  | nil => exact .empty
  | append_singleton es e ih =>
    rw [through_concat, Carriers.ofCapture_concat]
    exact tells_commands_feed ih e

/-- A sample bears the name that its thread has, however much the tables grow later. -/
theorem carried_feed (h : r.session.commands.Tells m) {u : Commands}
    (hgrown : r.session.commands.names <+: u.names) {e : Event} {found : Option ResolvedSample}
    (hfound : (r.feed e).answer.2 = .ok found) :
    found.map (fun x => x.command.bind u.nameOf?) = e.sample?.map fun f => m f.thread := by
  cases e with
  | mmap e =>
    rw [found_feed_mmap hfound]
    rfl
  | fork e =>
    cases hfound
    rfl
  | exit e =>
    cases hfound
    rfl
  | comm e =>
    cases hfound
    rfl
  | sample e =>
    cases hfound
    exact congrArg some (h.name_of_grown hgrown e.thread)

theorem carried_feedAll (h : r.session.commands.Tells m) {events : List Event}
    {samples : List ResolvedSample} (hfed : (r.feedAll es).answer = .ok (events, samples)) :
    samples.map (fun x => x.command.bind (r.feedAll es).state.session.commands.nameOf?) =
      m.atSamples es := by
  induction es generalizing r m events samples with
  | nil =>
    cases hfed
    rfl
  | cons e rest ih =>
    have hgrown := (grows_feedAll r (e :: rest)).commands
    obtain ⟨found, events', samples', hfound, hrest, -, rfl⟩ := feedAll_cons_eq_ok hfed
    rw [List.map_append, ← Option.toList_map, carried_feed h hgrown hfound,
      state_feedAll_cons_ok hfound, ih (tells_commands_feed h e) hrest, Carriers.atSamples]

/-- **A thread is called what the capture says.** Whatever records a run was fed, and whatever became
of them, each thread carries the name that a plain map tells: a name that it took itself, or took
over at a fork. Every sample, spelled out at the end of the run, bears the name that its thread had
at that moment, and so does every line of a replay. In the table, through whatever calls, equal names
have equal numbers and different ones different numbers, and it has as many names as different ones
were asked for. -/
theorem commands_follow_carriers (o : Options) (es : List Event) :
    let s := ((start o).through es).session
    (∀ thread, s.commands.commandOf? thread = Carriers.ofCapture es thread) ∧
    (∀ i e, es[i]? = some (.sample e) → ∃ x,
      (((start o).through (es.take i)).feed (.sample e)).answer.2 = .ok (some x) ∧
        (Report.named s.images s.commands x).command =
          Carriers.ofCapture (es.take i) e.thread) ∧
    (∀ out, (Replay.run o es).answer = .ok out →
      out.lines.map Report.Line.command = Carriers.nobody.atSamples es) ∧
    s.commands = Commands.empty.performAll (es.flatMap Commands.callsOf) ∧
    ∀ calls, let given := Commands.empty.answers calls
      (∀ p ∈ given, ∀ q ∈ given, p.2 = q.2 ↔ p.1 = q.1) ∧
        (Commands.empty.performAll calls).size = (given.map Prod.fst).toFinset.card := by
  intro s
  refine ⟨(tells_commands o es).command, ?samples, ?lines, commands_through _ es, ?table⟩
  case samples =>
    intro i e he
    refine ⟨_, rfl, ?_⟩
    have hgrown := (grows_through ((start o).through (es.take i)) (es.drop i)).commands
    rw [← through_append, List.take_append_drop] at hgrown
    exact (tells_commands o (es.take i)).name_of_grown hgrown e.thread
  case lines =>
    intro out hout
    obtain ⟨samples, hfed, hout⟩ := Replay.feedAll_of_run_ok hout
    rw [hout, Replay.ofRun, List.map_map, ← carried_feedAll .empty hfed]
    rfl
  case table =>
    intro calls given
    have hnumbering : Numbering (Commands.empty.performAll calls).names ([] ++ given) :=
      Commands.numbering_performAll .nil calls
    exact ⟨fun p hp q hq => hnumbering.number_eq_iff hp hq, hnumbering.length_eq⟩

/-- A thread is renamed after another one took over its name, which keeps the old name. -/
theorem commands_follow_carriers_renamed :
    let o : Options := ⟨true, Decimal.ofCount 95, 0x1000⟩
    let es : List Event :=
      [.mmap ⟨7, 7, 0x10000, 0x1000, 0, "a", false⟩, .comm ⟨7, 7, "old"⟩, .fork ⟨8, 7, 8, 7⟩,
        .comm ⟨7, 7, "new"⟩, .sample ⟨8, 8, 0x10010, [], []⟩, .sample ⟨7, 7, 0x10010, [], []⟩]
    let s := ((start o).through es).session
    s.commands.commandOf? ⟨8, 8⟩ = some "old" ∧
    (∃ x, (((start o).through (es.take 4)).feed (.sample ⟨8, 8, 0x10010, [], []⟩)).answer.2 =
      .ok (some x) ∧ (Report.named s.images s.commands x).command = some "old") ∧
    (∃ out, (Replay.run o es).answer = .ok out ∧
      out.lines.map Report.Line.command = [some "old", some "new"]) ∧
    (Commands.empty.performAll [.intern "new", .assign ⟨7, 7⟩ "old", .intern "new"]).size = 2 := by
  intro o es s
  obtain ⟨hcommand, hsample, hlines, -, htable⟩ := commands_follow_carriers o es
  have hrun : (Replay.run o es).answer.toOption.map (fun _ => ()) = some () := by decide +kernel
  obtain ⟨out, hout, -⟩ := Replay.exists_of_map_answer hrun
  have hold : Carriers.ofCapture (es.take 4) ⟨8, 8⟩ = some "old" := by decide +kernel
  refine ⟨?_, ?_, ⟨out, hout, ?_⟩, ?_⟩
  · rw [hcommand]
    decide +kernel
  · obtain ⟨x, hx, hname⟩ := hsample 4 ⟨8, 8, 0x10010, [], []⟩ rfl
    exact ⟨x, hx, hname.trans hold⟩
  · rw [hlines out hout]
    decide +kernel
  · rw [(htable _).2]
    decide +kernel

/-! ## Images -/

theorem registers_of_no_file {t : Images} {e : Event} (h : t.Registers asked)
    (hnone : e.file? = none) : t.Registers (asked ++ e.file?.toList) := by
  rw [hnone, Option.toList_none, List.append_nil]
  exact h

theorem registers_feed (h : r.session.images.Registers asked) (e : Event) :
    (r.feed e).state.session.images.Registers (asked ++ e.file?.toList) := by
  cases e with
  | mmap e =>
    have hinterned := h.intern e.filename e.kernel
    rcases Session.state_register r.session e r.count with heq | heq <;>
      simp only [feed, heq] <;> exact hinterned
  | fork e =>
    refine registers_of_no_file ?_ rfl
    simp only [feed, Session.fork]
    split <;> exact h
  | exit e => exact registers_of_no_file h rfl
  | comm e => exact registers_of_no_file h rfl
  | sample e =>
    refine registers_of_no_file ?_ rfl
    have hstate : (r.feed (.sample e)).state.session = (r.session.sample e).state := rfl
    rw [hstate, Session.state_sample]
    exact Session.registers_resolveAll h _ _

theorem registers_through (o : Options) (es : List Event) :
    ((start o).through es).session.images.Registers (es.filterMap Event.file?) := by
  induction es using List.reverseRecOn with
  | nil => exact .empty
  | append_singleton es e ih =>
    rw [through_concat, List.filterMap_append]
    have hnext := registers_feed ih e
    cases hfile : e.file? <;> simpa [hfile] using hnext

/-- **The number of an image is that of its first appearance.** Whatever names a table was asked for,
and however the hits of its images were changed in between: its names are those that it was asked
for, each once and in the order of their first appearance; finding a name undoes reading a number;
a number that was answered for a name is its number still, and is answered again, which leaves all
images as they are up to the mark of the kernel; and an image has this mark if and only if its name
was ever said to be the kernel's. In a run, whatever becomes of its records, the names are the files
of the mappings that it was fed. -/
theorem images_registered (o : Options) (es : List Event) :
    (∀ calls : List Images.Call,
      let t := Images.empty.performAll calls
      t.Registers (calls.filterMap Images.Call.asked?) ∧
      (∀ name id, t.lookup? name = some id ↔ t.nameOf? id = some name) ∧
      (∀ p ∈ Images.empty.answers calls,
        t.nameOf? p.2 = some p.1 ∧ ∀ kernel, (t.intern p.1 kernel).2 = p.2) ∧
      ∀ id i, t.get? id = some i → ∀ name kernel,
        ∃ k, (t.intern name kernel).1.get? id = some { i with kernel := k }) ∧
    ((start o).through es).session.images.Registers (es.filterMap Event.file?) := by
  refine ⟨?table, registers_through o es⟩
  intro calls t
  have hempty : Numbering Images.empty.names [] := .nil
  have hnumbering : Numbering t.names ([] ++ Images.empty.answers calls) :=
    Images.numbering_performAll hempty calls
  have hlookup : ∀ name id, t.lookup? name = some id ↔ t.nameOf? id = some name :=
    Images.lookup?_eq_some_iff t
  refine ⟨Images.Registers.performAll .empty calls, hlookup, ?numbers, ?others⟩
  case numbers =>
    intro p hp
    have hname : t.nameOf? p.2 = some p.1 := by
      rw [Images.nameOf?_eq]
      exact hnumbering.numbers p hp
    refine ⟨hname, fun kernel => ?_⟩
    rw [Images.number_intern, (hlookup p.1 p.2).2 hname, Option.getD_some]
  case others =>
    intro id i hi name kernel
    exact Images.get?_intern_of_get? hi name kernel

/-- A file is mapped twice and another one is refused in between: both have their numbers. In a table
the image that was hit stays hit when its name is asked for again, now as the kernel's. -/
theorem images_registered_refused :
    let o : Options := ⟨true, Decimal.ofCount 95, 0x1000⟩
    let es : List Event :=
      [.mmap ⟨7, 7, 0x10000, 0x3000, 0, "a", false⟩, .mmap ⟨7, 7, 0x11000, 0x800, 0, "b", false⟩,
        .mmap ⟨7, 7, 0x20000, 0x1000, 0, "a", true⟩]
    let calls : List Images.Call :=
      [.intern "a" false, .touch 0 fun _ => (true, [⟨7, 7⟩]), .intern "b" false]
    let t := Images.empty.performAll calls
    ((start o).feedAll es).answer.toOption.isNone = true ∧
      ((start o).through es).session.images.names = ["a", "b"] ∧
      t.lookup? "a" = some 0 ∧ (t.intern "a" true).2 = 0 ∧
      ∃ k, (t.intern "a" true).1.get? 0 = some ⟨"a", k, true, [⟨7, 7⟩]⟩ := by
  intro o es calls t
  obtain ⟨htable, hrun⟩ := images_registered o es
  obtain ⟨-, hlookup, hnumbers, hothers⟩ := htable calls
  have hanswered : ("a", 0) ∈ Images.empty.answers calls := by decide +kernel
  obtain ⟨hname, hagain⟩ := hnumbers ("a", 0) hanswered
  refine ⟨by decide +kernel, ?_, (hlookup "a" 0).2 hname, hagain true, ?_⟩
  · rw [hrun.names]
    decide +kernel
  · exact hothers 0 ⟨"a", false, true, [⟨7, 7⟩]⟩ (by decide +kernel) "a" true

end Run
end Unslide
