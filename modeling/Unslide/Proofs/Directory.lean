import Unslide.Directory
import Unslide.Proofs.Program
import Unslide.Proofs.Readdressing
import Unslide.Proofs.Report

/-!
# Unslide.Proofs.Directory

What a run of the program leaves in its directory. All is read and replayed before the first outlet
is opened, so a run that fails until then leaves the directory as it found it, and the exit code
tells why. A run that goes well leaves its products in the outlets that it was given, be one of them
the file that it read.

* `outlet_congr`: what a path leads to does not depend on the files.
* `content_emit`: what is written to one outlet, and what that does to others.
* `run_accepted`: a run, step by step.
* `run_all_or_nothing`: every accepted command line.
-/

namespace Unslide
namespace Directory

open Program (Product Trouble)

/-- Where text that is written goes, as far as it can be looked at again. -/
inductive Outlet where
  | stream
  | file (name : String)
  | elsewhere
  deriving DecidableEq, Repr

/-- Where a product goes that is written to a path. Without a path it goes to the standard output.
What is too long to be a path, or ends like that of a directory, leads to no file. -/
def outlet (d : Directory) : Option String → Outlet
  | none => .stream
  | some path =>
    if Path.longest < path.utf8ByteSize ∨ (Path.ofString path).slash = true then .elsewhere
    else
      match (d.target (.ofString path)).toOption with
      | some (.file name) => .file name
      | some (.device .output) => .stream
      | _ => .elsewhere

def content (d : Directory) : Outlet → Option (List UInt8)
  | .stream => some d.output.toUTF8.data.toList
  | .file name => d.find? name
  | .elsewhere => none

def emit (d : Directory) (text : String) : Outlet → Directory
  | .stream => { d with output := d.output ++ text }
  | .file name => d.put name text.toUTF8.data.toList
  | .elsewhere => d

/-- The two hold the same files and the same output. -/
structure Agrees (d d' : Directory) : Prop where
  files : d'.files = d.files
  output : d'.output = d.output

variable {d d' d'' : Directory} {o o' : Outlet} {path : Option String} {text : String}

namespace Agrees

theorem refl (d : Directory) : d.Agrees d := ⟨rfl, rfl⟩

theorem trans (h : d.Agrees d') (h' : d'.Agrees d'') : d.Agrees d'' :=
  ⟨h'.files.trans h.files, h'.output.trans h.output⟩

theorem content_eq (h : d.Agrees d') (o : Outlet) : d'.content o = d.content o := by
  cases o with
  | stream => simp only [content, h.output]
  | file name => simp only [content, find?, h.files]
  | elsewhere => rfl

theorem emit (h : d.Agrees d') (text : String) (o : Outlet) :
    (d.emit text o).Agrees (d'.emit text o) := by
  cases o with
  | stream => exact ⟨h.files, by simp only [Directory.emit, h.output]⟩
  | file name => exact ⟨by simp only [Directory.emit, put, h.files], h.output⟩
  | elsewhere => exact h

end Agrees

theorem content_emit_of_ne (d : Directory) (text : String) (hne : o' ≠ o) :
    (d.emit text o).content o' = d.content o' := by
  cases o with
  | stream =>
    cases o' with
    | stream => exact absurd rfl hne
    | file name => rfl
    | elsewhere => rfl
  | file name =>
    cases o' with
    | stream => rfl
    | file other =>
      refine find?_put_of_ne d _ ?_
      intro heq
      rw [heq] at hne
      exact hne rfl
    | elsewhere => rfl
  | elsewhere => rfl

theorem output_emit_of_ne (d : Directory) (text : String) (hne : o ≠ .stream) :
    (d.emit text o).output = d.output := by
  cases o with
  | stream => exact absurd rfl hne
  | file name => rfl
  | elsewhere => rfl

theorem content_emit_self (text : String) (ho : o ≠ .elsewhere)
    (hnew : o = .stream → d.output = "") :
    (d.emit text o).content o = some text.toUTF8.data.toList := by
  cases o with
  | stream =>
    simp only [emit, content, hnew rfl]
    rw [String.empty_append]
  | file name => exact find?_put_self d name _
  | elsewhere => exact absurd rfl ho

/-! ## Paths -/

/-- Files stand in the way of a path, or they do not: then they do not matter to it. -/
theorem enter_congr (d d' : Directory) (folder : Folder) (name : String) :
    (d.enter folder name).toOption = (d'.enter folder name).toOption := by
  simp only [enter]
  split
  · rfl
  · split
    · rfl
    · split
      · rfl
      · cases folder <;> rfl

theorem targetFrom_congr (d d' : Directory) (folder : Folder) (names : List String) :
    (d.targetFrom folder names).toOption = (d'.targetFrom folder names).toOption := by
  induction names generalizing folder with
  | nil => rfl
  | cons name rest ih =>
    cases rest with
    | nil => rfl
    | cons next rest =>
      have hentered := enter_congr d d' folder name
      simp only [targetFrom]
      cases henter : d.enter folder name with
      | error fault =>
        cases henter' : d'.enter folder name with
        | error fault' => rfl
        | ok folder' =>
          rw [henter, henter'] at hentered
          cases hentered
      | ok folder' =>
        cases henter' : d'.enter folder name with
        | error fault' =>
          rw [henter, henter'] at hentered
          cases hentered
        | ok folder'' =>
          rw [henter, henter'] at hentered
          cases hentered
          exact ih folder'

/-- Where a product goes does not depend on the files that there are. -/
theorem outlet_congr (d d' : Directory) (path : Option String) : d.outlet path = d'.outlet path := by
  cases path with
  | none => rfl
  | some path => simp only [outlet, target, targetFrom_congr d d']

/-! ## Writing -/

/-- What is written to the target of a path is in the outlet of the path, if it is written. -/
theorem agrees_of_writeTarget {product : Product} {path : String} {target : Target}
    (hoff : ¬ Path.longest < path.utf8ByteSize) (hslash : (Path.ofString path).slash ≠ true)
    (htarget : d.target (.ofString path) = .ok target)
    (h : d.writeTarget product path text target = .ok d') :
    (d.emit text (d.outlet (some path))).Agrees d' := by
  have hplain : ¬ (Path.longest < path.utf8ByteSize ∨ (Path.ofString path).slash = true) :=
    fun h => h.elim hoff hslash
  simp only [outlet, if_neg hplain, htarget, Except.toOption]
  cases target with
  | folder => cases h
  | overlong => cases h
  | vacant folder =>
    simp only [writeTarget] at h
    split at h
    · cases h
    · cases h
      exact .refl _
  | file name =>
    cases h
    exact .refl _
  | device device =>
    cases device with
    | full =>
      simp only [writeTarget, writeDevice] at h
      split at h
      · cases h
        exact .refl _
      · cases h
    | terminal => cases h
    | output =>
      cases h
      exact .refl _
    | complaints =>
      cases h
      exact ⟨rfl, rfl⟩
    | null =>
      cases h
      exact .refl _
    | input =>
      cases h
      exact .refl _

theorem agrees_of_writeFile {product : Product} {path : String}
    (h : d.writeFile product path text = .ok d') :
    (d.emit text (d.outlet (some path))).Agrees d' := by
  simp only [writeFile] at h
  split at h
  · cases h
  · rename_i hoff
    split at h
    · cases h
    · rename_i target htarget
      split at h
      · cases h
      · rename_i hslash
        exact agrees_of_writeTarget hoff hslash htarget h

/-- A product that is written is in its outlet, and nothing else has changed. -/
theorem agrees_of_write {product : Product} (h : (host.write product path text d).1 = .ok ()) :
    (d.emit text (d.outlet path)).Agrees (host.write product path text d).2 := by
  cases path with
  | none => exact .refl _
  | some path =>
    simp only [host] at h ⊢
    cases hwrite : d.writeFile product path text with
    | error t =>
      rw [hwrite] at h
      cases h
    | ok next => exact agrees_of_writeFile hwrite

/-- A product can be written to every file, and to the standard output. -/
theorem write_of_outlet (product : Product) (text : String) (h : d.outlet path ≠ .elsewhere) :
    (host.write product path text d).1 = .ok () := by
  cases path with
  | none => rfl
  | some path =>
    simp only [host, writeFile]
    simp only [outlet] at h
    split at h
    · exact absurd rfl h
    · rename_i hplain
      obtain ⟨hoff, hslash⟩ := not_or.1 hplain
      rw [if_neg hoff]
      cases htarget : d.target (.ofString path) with
      | error fault =>
        rw [htarget] at h
        exact absurd rfl h
      | ok target =>
        rw [htarget] at h
        simp only [if_neg hslash]
        cases target with
        | file name => rfl
        | device device =>
          cases device with
          | output => rfl
          | _ => exact absurd rfl h
        | _ => exact absurd rfl h

/-! ## Runs -/

variable {a : Arguments} {args : List String}

def complain (d : Directory) (text : String) : Directory :=
  { d with complaints := d.complaints ++ text }

/-- The bytes that a run is given to read. -/
def given (d : Directory) (a : Arguments) : Except Trouble (List UInt8) :=
  match a.input with
  | none => .ok d.input
  | some path => d.readFile path

/-- The run reads a capture, and replays it to a good end. -/
def Replays (d : Directory) (a : Arguments) (events : List Event) (replay : Replay) : Prop :=
  ∃ bytes, d.given a = .ok bytes ∧ Capture.read bytes = .ok events ∧
    (Replay.run (a.options d.page) events).answer = .ok replay

/-- A run that was told what to do, step by step. -/
theorem run_accepted (h : Arguments.parse args = .ok a) (d : Directory) :
    d.run args =
      match d.given a with
      | .error t => (t.exitCode, d.complain ("error: " ++ t.message ++ "\n"))
      | .ok bytes =>
        match Program.process (a.options d.page) bytes with
        | .error t => (t.exitCode, d.complain ("error: " ++ t.message ++ "\n"))
        | .ok replay =>
          match Program.writeAll host a replay d with
          | (.error t, d') => (t.exitCode, d'.complain ("error: " ++ t.message ++ "\n"))
          | (.ok _, d') => (0, if a.quiet then d' else d'.complain (Program.summary replay)) := by
  have hread : host.read a.input d = (d.given a, d) := by
    simp only [host, given]
    cases a.input <;> rfl
  have hrun : d.run args = (Program.execute host a) d := by
    simp only [run, Program.run, h]
  rw [hrun]
  have hpage : host.page d = (d.page, d) := rfl
  simp only [Program.execute, Program.attempt, bind, StateT.bind, hpage, hread]
  cases d.given a with
  | error t => rfl
  | ok bytes =>
    simp only
    cases Program.process (a.options d.page) bytes with
    | error t => rfl
    | ok replay =>
      simp only [StateT.bind, bind]
      cases Program.writeAll host a replay d with
      | mk result d' =>
        cases result with
        | error t => rfl
        | ok done =>
          simp only
          cases a.quiet <;> rfl

/-- The products of a replay, in the outlets that the command line names for them. -/
def deliver (d : Directory) (a : Arguments) (replay : Replay) : Directory :=
  let recorded := d.emit (Capture.text replay.events) (d.outlet a.output)
  match a.resolved with
  | none => recorded
  | some path => recorded.emit (Report.text replay.lines) (d.outlet (some path))

theorem writeAll_eq (a : Arguments) (replay : Replay) (d : Directory) :
    Program.writeAll host a replay d =
      match host.write .records a.output (Capture.text replay.events) d with
      | (.error t, d') => (.error t, d')
      | (.ok _, d') =>
        match a.resolved with
        | none => (.ok (), d')
        | some path => host.write .samples (some path) (Report.text replay.lines) d' := by
  simp only [Program.writeAll, Program.writeReport, bind, StateT.bind]
  cases host.write .records a.output (Capture.text replay.events) d with
  | mk result d' =>
    cases result with
    | error t => rfl
    | ok done => cases a.resolved <;> rfl

theorem agrees_of_writeAll {replay : Replay} (h : (Program.writeAll host a replay d).1 = .ok ()) :
    (d.deliver a replay).Agrees (Program.writeAll host a replay d).2 := by
  rw [writeAll_eq] at h ⊢
  have hrecords : (host.write .records a.output (Capture.text replay.events) d).1 = .ok () →
      (d.emit (Capture.text replay.events) (d.outlet a.output)).Agrees
        (host.write .records a.output (Capture.text replay.events) d).2 := agrees_of_write
  generalize host.write .records a.output (Capture.text replay.events) d = step at h hrecords
  obtain ⟨result, d'⟩ := step
  cases result with
  | error t => cases h
  | ok done =>
    have hkept := hrecords rfl
    simp only [deliver] at h ⊢
    cases hpath : a.resolved with
    | none => exact hkept
    | some path =>
      rw [hpath] at h
      have hsamples := agrees_of_write h
      rw [outlet_congr d' d] at hsamples
      exact (hkept.emit _ _).trans hsamples

theorem writeAll_of_outlets (replay : Replay) (houtput : d.outlet a.output ≠ .elsewhere)
    (hresolved : ∀ path, a.resolved = some path → d.outlet (some path) ≠ .elsewhere) :
    (Program.writeAll host a replay d).1 = .ok () := by
  rw [writeAll_eq]
  have hrecords := write_of_outlet .records (Capture.text replay.events) houtput
  generalize host.write .records a.output (Capture.text replay.events) d = step at hrecords
  obtain ⟨result, d'⟩ := step
  simp only at hrecords
  rw [hrecords]
  cases hpath : a.resolved with
  | none => rfl
  | some path =>
    refine write_of_outlet .samples _ ?_
    rw [outlet_congr d' d]
    exact hresolved path hpath

/-! ## Failures -/

variable {t : Trouble}

theorem exitCode_readTarget {path : String} {slash : Bool} {target : Target}
    (h : d.readTarget path slash target = .error t) : t.exitCode = 1 := by
  cases target with
  | folder =>
    cases h
    rfl
  | overlong =>
    cases h
    rfl
  | vacant folder =>
    cases h
    rfl
  | device device =>
    simp only [readTarget] at h
    split at h
    · cases h
      rfl
    · cases device with
      | terminal =>
        cases h
        rfl
      | _ => cases h
  | file name =>
    simp only [readTarget] at h
    split at h
    · cases h
      rfl
    · split at h
      · cases h
        rfl
      · cases h

/-- A file that cannot be read is nobody's fault but the file's. -/
theorem exitCode_given (h : d.given a = .error t) : t.exitCode = 1 := by
  simp only [given] at h
  split at h
  · cases h
  · simp only [readFile] at h
    split at h
    · cases h
      rfl
    · split at h
      · cases h
        rfl
      · exact exitCode_readTarget h

theorem run_of_trouble (h : Arguments.parse args = .ok a)
    (ht : d.given a = .error t ∨
      ∃ bytes, d.given a = .ok bytes ∧ Program.process (a.options d.page) bytes = .error t) :
    d.run args = (t.exitCode, d.complain ("error: " ++ t.message ++ "\n")) := by
  rw [run_accepted h]
  cases ht with
  | inl hgiven => simp only [hgiven]
  | inr hprocess =>
    obtain ⟨bytes, hgiven, hprocess⟩ := hprocess
    simp only [hgiven, hprocess]

/-- A run that fails before it writes leaves the directory as it was, but for what it complains. -/
theorem run_of_failure (h : Arguments.parse args = .ok a)
    (hfails : ¬ ∃ events replay, d.Replays a events replay) :
    d.Agrees (d.run args).2 ∧
      ((d.run args).1 = 65 ↔ ∃ bytes, d.given a = .ok bytes ∧ Program.Malformed bytes) ∧
      ((d.run args).1 = 3 ↔
        ∃ bytes, d.given a = .ok bytes ∧ Program.Short (a.options d.page) bytes) ∧
      ((d.run args).1 = 65 ∨ (d.run args).1 = 3 ∨ (d.run args).1 = 1) := by
  cases hgiven : d.given a with
  | error t =>
    have hcode := exitCode_given hgiven
    rw [run_of_trouble h (.inl hgiven)]
    refine ⟨⟨rfl, rfl⟩, ?_, ?_, t.exitCode_cases⟩ <;> simp [hcode]
  | ok bytes =>
    cases hprocess : Program.process (a.options d.page) bytes with
    | error t =>
      obtain ⟨hdata, hshort⟩ := Program.exitCode_process hprocess
      rw [run_of_trouble h (.inr ⟨bytes, hgiven, hprocess⟩)]
      simp only [Except.ok.injEq, exists_eq_left', hdata, hshort, true_and]
      refine ⟨⟨rfl, rfl⟩, ?_⟩
      rw [← hdata, ← hshort]
      exact t.exitCode_cases
    | ok replay =>
      obtain ⟨events, hread, hrun⟩ := Program.process_eq_ok_iff.1 hprocess
      exact absurd ⟨events, replay, bytes, hgiven, hread, hrun⟩ hfails

/-- A run that reads and replays its capture ends well if its products can be written, and leaves
them in their outlets. -/
theorem run_of_replays {events : List Event} {replay : Replay} (h : Arguments.parse args = .ok a)
    (hreplays : d.Replays a events replay) :
    ((d.run args).1 = 0 ↔ (Program.writeAll host a replay d).1 = .ok ()) ∧
      ((d.run args).1 = 0 → (d.deliver a replay).Agrees (d.run args).2) := by
  obtain ⟨bytes, hgiven, hread, hrun⟩ := hreplays
  have hprocess := Program.process_eq_ok_iff.2 ⟨events, hread, hrun⟩
  have hdeliver : (Program.writeAll host a replay d).1 = .ok () →
      (d.deliver a replay).Agrees (Program.writeAll host a replay d).2 := agrees_of_writeAll
  rw [run_accepted h, hgiven]
  simp only [hprocess]
  generalize Program.writeAll host a replay d = step at hdeliver
  obtain ⟨result, d'⟩ := step
  cases result with
  | error t =>
    refine ⟨⟨?_, ?_⟩, ?_⟩
    · intro hcode
      exact absurd hcode t.exitCode_ne_zero
    · intro hok
      cases hok
    · intro hcode
      exact absurd hcode t.exitCode_ne_zero
  | ok done =>
    refine ⟨⟨fun _ => rfl, fun _ => rfl⟩, fun _ => (hdeliver rfl).trans ?_⟩
    simp only
    split <;> exact ⟨rfl, rfl⟩

theorem content_deliver_output (replay : Replay) (hnew : d.output = "")
    (houtlet : d.outlet a.output ≠ .elsewhere)
    (happart : ∀ path, a.resolved = some path → d.outlet (some path) ≠ d.outlet a.output) :
    (d.deliver a replay).content (d.outlet a.output) =
      some (Capture.text replay.events).toUTF8.data.toList := by
  have hrecords := content_emit_self (Capture.text replay.events) houtlet fun _ => hnew
  simp only [deliver]
  cases hpath : a.resolved with
  | none => exact hrecords
  | some path =>
    exact (content_emit_of_ne _ _ (happart path hpath).symm).trans hrecords

theorem content_deliver_resolved (replay : Replay) {path : String} (hpath : a.resolved = some path)
    (hnew : d.output = "") (houtlet : d.outlet (some path) ≠ .elsewhere)
    (happart : d.outlet (some path) ≠ d.outlet a.output) :
    (d.deliver a replay).content (d.outlet (some path)) =
      some (Report.text replay.lines).toUTF8.data.toList := by
  simp only [deliver, hpath]
  refine content_emit_self _ houtlet ?_
  intro hstream
  rw [hstream] at happart
  rw [output_emit_of_ne d _ (Ne.symm happart), hnew]

theorem content_deliver_other (replay : Replay) (houtput : o ≠ d.outlet a.output)
    (hresolved : ∀ path, a.resolved = some path → o ≠ d.outlet (some path)) :
    (d.deliver a replay).content o = d.content o := by
  simp only [deliver]
  cases hpath : a.resolved with
  | none => exact content_emit_of_ne _ _ houtput
  | some path =>
    exact (content_emit_of_ne _ _ (hresolved path hpath)).trans (content_emit_of_ne _ _ houtput)

/-- **All or nothing.** Let a command line be accepted, and let the program run among any files and
with any input, on a system that tells any page size or none. If the capture cannot be read and
replayed, then no file and no output is changed, and the exit code tells why: it is 65 if the first
line that is neither blank nor a record is text, 3 if the capture is replayed to its end and falls
short of the threshold, and else 1. If it can be read and replayed, and its products can be written,
as to files and to the standard output they can, the exit code is 0. Then the outlet of the records
holds the text of the records that the replay of the capture gave, even if the capture was read from
there; and the outlet of the resolved samples, if that is another one, holds one line for each
sample. No other file is changed. -/
theorem run_all_or_nothing {args : List String} {a : Arguments} (h : Arguments.parse args = .ok a)
    (files : List (String × List UInt8)) (input : List UInt8) (page : Option Nat) :
    let d := start files input page
    let code := (d.run args).1
    let left := (d.run args).2
    ((¬ ∃ events replay, d.Replays a events replay) →
      left.files = files ∧ left.output = "" ∧
        (code = 65 ↔ ∃ bytes, d.given a = .ok bytes ∧ Program.Malformed bytes) ∧
        (code = 3 ↔ ∃ bytes, d.given a = .ok bytes ∧ Program.Short (a.options page) bytes) ∧
        (code = 65 ∨ code = 3 ∨ code = 1)) ∧
    ∀ events replay, d.Replays a events replay →
      (d.outlet a.output ≠ .elsewhere →
        (∀ path, a.resolved = some path → d.outlet (some path) ≠ .elsewhere) → code = 0) ∧
      (code = 0 →
        (d.outlet a.output ≠ .elsewhere →
          (∀ path, a.resolved = some path → d.outlet (some path) ≠ d.outlet a.output) →
          left.content (d.outlet a.output) =
            some (Capture.text replay.events).toUTF8.data.toList) ∧
        (∀ path, a.resolved = some path → d.outlet (some path) ≠ .elsewhere →
          d.outlet (some path) ≠ d.outlet a.output →
          ∃ bytes, left.content (d.outlet (some path)) = some bytes ∧
            bytes = (Report.text replay.lines).toUTF8.data.toList ∧
            (Capture.linesOf bytes).length = (samplesOf events).length) ∧
        ∀ name, .file name ≠ d.outlet a.output →
          (∀ path, a.resolved = some path → .file name ≠ d.outlet (some path)) →
          left.find? name = d.find? name) := by
  intro d code left
  constructor
  · intro hfails
    obtain ⟨hkept, hdata, hshort, hcode⟩ := run_of_failure h hfails
    exact ⟨hkept.files, hkept.output, hdata, hshort, hcode⟩
  · intro events replay hreplays
    obtain ⟨hwell, hleft⟩ := run_of_replays h hreplays
    refine ⟨?_, ?_⟩
    · intro houtput hresolved
      exact hwell.2 (writeAll_of_outlets replay houtput hresolved)
    · intro hcode
      have hagrees := hleft hcode
      refine ⟨?records, ?samples, ?others⟩
      case records =>
        intro houtput happart
        rw [hagrees.content_eq]
        exact content_deliver_output replay rfl houtput happart
      case samples =>
        intro path hpath houtlet happart
        refine ⟨_, ?_, rfl, ?_⟩
        · rw [hagrees.content_eq]
          exact content_deliver_resolved replay hpath rfl houtlet happart
        · obtain ⟨bytes, -, -, hrun⟩ := hreplays
          obtain ⟨-, -, -, hthreads, -⟩ := Replay.readdressed_run hrun
          have hlength := congrArg List.length hthreads
          rw [List.length_map, List.length_map] at hlength
          rw [Report.linesOf_text, List.length_map, hlength]
      case others =>
        intro name houtput hresolved
        have hother := content_deliver_other replay houtput hresolved
        rw [← hagrees.content_eq] at hother
        exact hother

/-- The records are written over the capture that they are read from; and a capture with a line that
is no record is left alone. The system has pages of four times the usual size, and the mapping keeps
its offset in them. -/
theorem run_all_or_nothing_in_place :
    let args := ["-i", "in", "-o", "in", "--resolved", "report", "-q"]
    let a : Arguments :=
      ⟨some "in", some "in", some "report", true, true, Options.default.threshold, none⟩
    let es : List Event :=
      [.mmap ⟨7, 7, 0x11000, 0x1000, 0, "a", false⟩, .sample ⟨7, 7, 0x11020, [], []⟩]
    let good := (Capture.text es).toUTF8.data.toList
    let bad := good ++ [0x78, 0x0a]
    let d := fun bytes => start [("in", bytes)] [] (some 0x4000)
    Arguments.parse args = .ok a ∧
      ((d good).run args).1 = 0 ∧
      ((d good).run args).2.find? "in" =
        some (Capture.text [.mmap ⟨7, 7, 0x1000, 0x1000, 0, "a", false⟩,
          .sample ⟨7, 7, 0x1020, [], []⟩]).toUTF8.data.toList ∧
      (∃ bytes, ((d good).run args).2.find? "report" = some bytes ∧
        (Capture.linesOf bytes).length = 1) ∧
      ((d bad).run args).1 = 65 ∧ Program.Malformed bad ∧
      ((d bad).run args).2.files = [("in", bad)] := by
  intro args a es good bad d
  have h : Arguments.parse args = .ok a := rfl
  have hd : ∀ bytes, d bytes = start [("in", bytes)] [] (some 0x4000) := fun _ => rfl
  have hgiven : ∀ bytes, (start [("in", bytes)] [] (some 0x4000)).given a = .ok bytes :=
    fun _ => rfl
  have hsame : ∀ bytes bytes',
      (start [("in", bytes)] [] (some 0x4000)).given a = .ok bytes' → bytes' = bytes := by
    intro bytes bytes' hbytes
    rw [hgiven] at hbytes
    exact (Except.ok.inj hbytes).symm
  have hes : ∀ e ∈ es, e.InRange := by
    simp [es, Event.InRange, top, topId]
  have hread : Capture.read good = .ok es := (Capture.read_text hes).1
  have hevents : (Replay.run (a.options (some 0x4000)) es).answer.toOption.map Replay.events = some
      [.mmap ⟨7, 7, 0x1000, 0x1000, 0, "a", false⟩, .sample ⟨7, 7, 0x1020, [], []⟩] := by
    decide +kernel
  obtain ⟨replay, hrun, hevents⟩ := Replay.exists_of_map_answer hevents
  obtain ⟨-, hwell⟩ := run_all_or_nothing h [("in", good)] [] (some 0x4000)
  obtain ⟨hwritten, hleft⟩ := hwell es replay ⟨good, hgiven good, hread, hrun⟩
  have houtput : (start [("in", good)] [] (some 0x4000)).outlet a.output = .file "in" := rfl
  have hresolved : ∀ path, a.resolved = some path →
      (start [("in", good)] [] (some 0x4000)).outlet (some path) = .file "report" := by
    intro path hpath
    cases hpath
    rfl
  have hcode : ((start [("in", good)] [] (some 0x4000)).run args).1 = 0 := by
    refine hwritten (by simp [houtput]) ?_
    intro path hpath
    simp [hresolved path hpath]
  obtain ⟨hrecords, hsamples, -⟩ := hleft hcode
  have hin := hrecords (by simp [houtput]) fun path hpath => by simp [hresolved path hpath, houtput]
  obtain ⟨bytes, hreport, -, hcount⟩ := hsamples "report" rfl
    (by simp [hresolved "report" rfl]) (by simp [hresolved "report" rfl, houtput])
  rw [houtput, hevents] at hin
  rw [hresolved "report" rfl] at hreport
  have hbad : (Capture.read bad).toOption = none := by decide +kernel
  have hfails : ¬ ∃ events replay,
      (start [("in", bad)] [] (some 0x4000)).Replays a events replay := by
    intro hreplays
    obtain ⟨events, replay, bytes, hbytes, hevents, -⟩ := hreplays
    rw [← hsame bad bytes hbytes, hevents] at hbad
    cases hbad
  obtain ⟨hfails', -⟩ := run_all_or_nothing h [("in", bad)] [] (some 0x4000)
  obtain ⟨hfiles, -, hdata, -, -⟩ := hfails' hfails
  have hcode' : ((start [("in", bad)] [] (some 0x4000)).run args).1 = 65 := by decide +kernel
  obtain ⟨bytes', hbytes', hmalformed⟩ := hdata.1 hcode'
  rw [hsame bad bytes' hbytes'] at hmalformed
  simp only [hd]
  exact ⟨h, hcode, hin, ⟨bytes, hreport, hcount⟩, hcode', hmalformed, hfiles⟩

end Directory
end Unslide