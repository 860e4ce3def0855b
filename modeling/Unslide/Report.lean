import Unslide.Json.Writer
import Unslide.Run

/-!
# Unslide.Report

Resolved samples with the names of their images and commands spelled out, and their lines of JSON.
-/

namespace Unslide
namespace Report

structure Place where
  image : String
  offset : Nat
  deriving DecidableEq, Repr

structure Jump where
  source : Place
  target : Place
  predicted : Bool
  deriving DecidableEq, Repr

/-- One resolved sample, with names. -/
structure Line where
  thread : Thread
  command : Option String
  ip : Option Place
  callchain : List Place
  branches : List Jump
  complete : Bool
  deriving DecidableEq, Repr

/-- The name that stands for an image that is not in the table. -/
def unknownImage : String := "<unknown>"

def place (images : Images) (l : Location) : Place :=
  ⟨(images.nameOf? l.image).getD unknownImage, l.offset⟩

def jump (images : Images) (b : ResolvedBranch) : Jump :=
  ⟨place images b.source, place images b.target, b.predicted⟩

def named (images : Images) (commands : Commands) (r : ResolvedSample) : Line where
  thread := r.thread
  command := r.command.bind commands.nameOf?
  ip := r.ip.map (place images)
  callchain := r.callchain.map (place images)
  branches := r.branches.map (jump images)
  complete := r.complete

open Json in
def Place.json (p : Place) : List Char :=
  object [("dso", quoted p.image), ("offset", number p.offset)]

open Json in
def Jump.json (j : Jump) : List Char :=
  object [("from", j.source.json), ("to", j.target.json), ("predicted", flag j.predicted)]

open Json in
/-- A line of the report in JSON. The command is left out if there is none. -/
def Line.json (l : Line) : List Char :=
  object
    ([("pid", number l.thread.pid), ("tid", number l.thread.tid)] ++
      (match l.command with
        | some name => [("command", quoted name)]
        | none => []) ++
      [("ip",
          match l.ip with
          | some p => p.json
          | none => null),
        ("callchain", array (l.callchain.map Place.json)),
        ("branch_stack", array (l.branches.map Jump.json)),
        ("fully_mapped", flag l.complete)])

/-- The text of a report: one line for each resolved sample. -/
def text (lines : List Line) : String :=
  String.ofList (lines.flatMap fun l => l.json ++ ['\n'])

end Report

open Json in
def Tally.json (t : Tally) : String :=
  String.ofList <| object
    [("num_mmap_events", number t.mmaps), ("num_fork_events", number t.forks),
      ("num_exit_events", number t.exits), ("num_comm_events", number t.comms),
      ("num_sample_events", number t.samples), ("num_sample_events_mapped", number t.mapped),
      ("did_remap", flag t.remapped)]

end Unslide
