import Unslide.Session.Registration
import Unslide.Session.Resolution

/-!
# Unslide.Run

A run over a capture, record by record. Records are numbered from zero in the order in which they
are met, whatever becomes of them; a mapping is known by the number of its record.

* `count_feed`: every record takes one number.
-/

namespace Unslide

structure Run where
  session : Session
  tally : Tally
  /-- Records met so far; also the number of the next one. -/
  count : Nat

namespace Run

def start (options : Options) : Run := ⟨.start options, .start options.remap, 0⟩

/-- Feed one record to a run. Answers the record, remapped if the run asks for it, and for a sample
what was found. -/
def feed (r : Run) (e : Event) : Step Run (Event × Except Failure (Option ResolvedSample)) :=
  match e with
  | .mmap e =>
    let done := r.session.register e r.count
    ⟨⟨done.state, { r.tally with mmaps := r.tally.mmaps + 1 }, r.count + 1⟩,
      (.mmap done.answer.1, done.answer.2.map fun _ => none), done.notes⟩
  | .fork e =>
    let done := r.session.fork e
    ⟨⟨done.state, { r.tally with forks := r.tally.forks + 1 }, r.count + 1⟩,
      (.fork e, .ok none), done.notes⟩
  | .exit e =>
    ⟨⟨r.session, { r.tally with exits := r.tally.exits + 1 }, r.count + 1⟩,
      (.exit e, .ok none), []⟩
  | .comm e =>
    let done := r.session.nameThread e
    ⟨⟨done.state, { r.tally with comms := r.tally.comms + 1 }, r.count + 1⟩,
      (.comm e, .ok none), done.notes⟩
  | .sample e =>
    let done := r.session.sample e
    let remapped := done.answer.1
    let found := done.answer.2
    let mapped := if found.complete then r.tally.mapped + 1 else r.tally.mapped
    ⟨⟨done.state, { r.tally with samples := r.tally.samples + 1, mapped := mapped }, r.count + 1⟩,
      (.sample remapped, .ok (some found)),
      done.notes ++ if found.complete then [] else [.sampleUnmapped r.count remapped.ip]⟩

theorem count_feed (r : Run) (e : Event) : (r.feed e).state.count = r.count + 1 := by
  cases e <;> rfl

/-- Hold the counters of the run against its threshold. -/
def verdict (r : Run) : Except Failure Unit :=
  if r.tally.FallsShort r.session.options.threshold then
    .error (.belowThreshold r.tally.mapped r.tally.samples r.session.options.threshold)
  else .ok ()

def closingNotes (r : Run) : List Note := [.parsed r.count r.tally]

end Run
end Unslide
