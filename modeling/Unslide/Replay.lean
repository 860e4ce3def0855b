import Unslide.Report

/-!
# Unslide.Replay

A whole run over a capture: every record is taken in order, the first failure ends the run, and the
counters are held against the threshold at the end. Names are spelled out when the run is over.
-/

namespace Unslide

/-- Feed records to a run in order, up to the first failure. Answers the records, remapped if the
run asks for it, and what was found for the samples among them. -/
def Run.feedAll (r : Run) :
    List Event → Step Run (Except Failure (List Event × List ResolvedSample))
  | [] => ⟨r, .ok ([], []), []⟩
  | e :: rest =>
    let first := r.feed e
    match first.answer with
    | (_, .error failure) => ⟨first.state, .error failure, first.notes⟩
    | (remapped, .ok found) =>
      ((first.state.feedAll rest).after first.notes).mapAnswer fun others =>
        others.map fun (events, samples) => (remapped :: events, found.toList ++ samples)

structure Replay where
  /-- The records, remapped if the run asks for it. -/
  events : List Event
  /-- One line for each sample, in order. -/
  lines : List Report.Line
  tally : Tally
  /-- Numbers of the mappings that no address was resolved into. -/
  unsampled : List Nat

namespace Replay

/-- What a finished run gives, with names spelled out. -/
def ofRun (r : Run) (events : List Event) (samples : List ResolvedSample) : Replay where
  events := events
  lines := samples.map (Report.named r.session.images r.session.commands)
  tally := r.tally
  unsampled := r.session.unsampled

def run (options : Options) (events : List Event) : Step Run (Except Failure Replay) :=
  let done := (Run.start options).feedAll events
  match done.answer with
  | .error failure => ⟨done.state, .error failure, done.notes⟩
  | .ok (remapped, samples) =>
    let notes := done.notes ++ done.state.closingNotes
    match done.state.verdict with
    | .error failure => ⟨done.state, .error failure, notes⟩
    | .ok _ =>
      let result := ofRun done.state remapped samples
      let session := done.state.session
      ⟨done.state, .ok result,
        notes ++
          [.replayed session.images.size session.processes.size result.unsampled.length]⟩

end Replay
end Unslide
