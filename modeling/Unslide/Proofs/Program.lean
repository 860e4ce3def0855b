import Unslide.Proofs.Run
import Unslide.Program

/-!
# Unslide.Proofs.Program

Why a run of the program fails, told without the program. A capture cannot be read if one of its
lines is neither blank nor a record, and the first such line decides: it is no text, or it is text
but no record. A capture that can be read is replayed to its end, or a mapping stops it; and what is
replayed to its end can still fall short of the threshold. The exit code tells these apart.

* `exists_firstBad`, `read_of_firstBad`: the first bad line of a capture.
* `run_short_iff`: replays that fail on the threshold alone.
* `exitCode_process`: the exit code of a run that was given its bytes.
-/

namespace Unslide
namespace Capture

def IsText (line : List UInt8) : Prop := (String.fromUTF8? ⟨line.toArray⟩).isSome = true

/-- The line is text, and it is blank or a record. -/
def Readable (line : List UInt8) : Prop :=
  ∃ text, String.fromUTF8? ⟨line.toArray⟩ = some text ∧
    (Text.isBlankLine text = true ∨ ∃ e, Record.read text.toList = .ok e)

/-- The first line of a capture that is neither blank nor a record. -/
def FirstBad (bytes line : List UInt8) : Prop :=
  ∃ before after, linesOf bytes = before ++ line :: after ∧ (∀ l ∈ before, Readable l) ∧
    ¬ Readable line

/-- The fault is that of a line which is text, but no record. -/
def Fault.OfRecord (fault : Fault) : Prop :=
  ∃ number cause column, fault = .badLine number cause column

variable {bytes line : List UInt8} {lines : List (List UInt8)} {number : Nat} {fault : Fault}

theorem readLine_of_readable (h : Readable line) (number : Nat) :
    ∃ found, readLine number line = .ok found := by
  obtain ⟨text, htext, hshown⟩ := h
  simp only [readLine, htext]
  split
  · exact ⟨none, rfl⟩
  · rename_i hblank
    obtain ⟨e, he⟩ := hshown.resolve_left hblank
    exact ⟨some e, by rw [he]⟩

/-- A line that cannot be read is told apart by whether it is text. -/
theorem readLine_of_not_readable (h : ¬ Readable line) (number : Nat) :
    ∃ fault, readLine number line = .error fault ∧ (IsText line ↔ fault.OfRecord) := by
  simp only [readLine, IsText]
  split
  · rename_i hnone
    refine ⟨.notText, rfl, ?_⟩
    rw [hnone]
    constructor
    · intro hsome
      cases hsome
    · intro ⟨_, _, _, hfault⟩
      cases hfault
  · rename_i text htext
    split
    · rename_i hblank
      exact absurd ⟨text, htext, .inl hblank⟩ h
    · split
      · rename_i e he
        exact absurd ⟨text, htext, .inr ⟨e, he⟩⟩ h
      · refine ⟨_, rfl, ?_⟩
        rw [htext]
        exact ⟨fun _ => ⟨_, _, _, rfl⟩, fun _ => rfl⟩

/-- Reading stops at the first line that cannot be read. By induction on the lines before it. -/
theorem readLines_stops {before : List (List UInt8)} (hbefore : ∀ l ∈ before, Readable l)
    (after : List (List UInt8)) (hline : readLine (number + before.length) line = .error fault) :
    readLines number (before ++ line :: after) = .error fault := by
  induction before generalizing number with
  | nil =>
    rw [List.length_nil, Nat.add_zero] at hline
    simp only [List.nil_append, readLines, hline]
  | cons first before ih =>
    obtain ⟨found, hfirst⟩ := readLine_of_readable (hbefore first List.mem_cons_self) number
    rw [List.length_cons, Nat.add_comm before.length, ← Nat.add_assoc] at hline
    have hrest := ih (fun l hl => hbefore l (List.mem_cons_of_mem _ hl)) hline
    simp only [List.cons_append, readLines, hfirst, hrest]

theorem exists_bad_of_readLines (h : readLines number lines = .error fault) :
    ∃ before line after, lines = before ++ line :: after ∧ (∀ l ∈ before, Readable l) ∧
      ¬ Readable line := by
  induction lines generalizing number fault with
  | nil => cases h
  | cons first rest ih =>
    by_cases hfirst : Readable first
    · obtain ⟨found, hfound⟩ := readLine_of_readable hfirst number
      simp only [readLines, hfound] at h
      cases hrest : readLines (number + 1) rest with
      | ok events =>
        rw [hrest] at h
        cases h
      | error other =>
        obtain ⟨before, line, after, rfl, hbefore, hbad⟩ := ih hrest
        exact ⟨first :: before, line, after, rfl, List.forall_mem_cons.2 ⟨hfirst, hbefore⟩, hbad⟩
    · exact ⟨[], first, rest, rfl, List.forall_mem_nil _, hfirst⟩

theorem exists_firstBad (h : read bytes = .error fault) : ∃ line, FirstBad bytes line := by
  obtain ⟨before, line, after, hlines, hbefore, hbad⟩ := exists_bad_of_readLines h
  exact ⟨line, before, after, hlines, hbefore, hbad⟩

/-- What is wrong with a capture is told by its first bad line. -/
theorem read_of_firstBad (h : FirstBad bytes line) :
    ∃ fault, read bytes = .error fault ∧ (IsText line ↔ fault.OfRecord) := by
  obtain ⟨before, after, hlines, hbefore, hbad⟩ := h
  obtain ⟨fault, hfault, htext⟩ := readLine_of_not_readable hbad (1 + before.length)
  refine ⟨fault, ?_, htext⟩
  rw [read, hlines]
  exact readLines_stops hbefore after hfault

end Capture

namespace Run

variable {r : Run} {es : List Event}

/-- No record stops a run on the threshold. -/
theorem feed_error_ne {e : Event} {f : Failure} (h : (r.feed e).answer.2 = .error f)
    (mapped total : Nat) (threshold : Float) : f ≠ .belowThreshold mapped total threshold := by
  cases e with
  | mmap e =>
    have hanswer : (r.session.register e r.count).answer.2 = .error f := by
      simp only [feed] at h
      cases hregister : (r.session.register e r.count).answer.2 with
      | error f' =>
        rw [hregister] at h
        cases h
        rfl
      | ok _ =>
        rw [hregister] at h
        cases h
    intro heq
    subst heq
    simp only [Session.register] at hanswer
    split at hanswer
    · cases hanswer
    · split at hanswer
      · cases hanswer
      · split at hanswer
        · cases hanswer
        · split at hanswer <;> cases hanswer
  | fork e => cases h
  | exit e => cases h
  | comm e => cases h
  | sample e => cases h

theorem feedAll_error_ne {f : Failure} (h : (r.feedAll es).answer = .error f)
    (mapped total : Nat) (threshold : Float) : f ≠ .belowThreshold mapped total threshold := by
  induction es generalizing r with
  | nil => cases h
  | cons e rest ih =>
    cases hfound : (r.feed e).answer.2 with
    | error f' =>
      rw [answer_feedAll_cons_error hfound] at h
      cases h
      exact feed_error_ne hfound mapped total threshold
    | ok found =>
      rw [answer_feedAll_cons_ok hfound] at h
      cases hrest : ((r.feed e).state.feedAll rest).answer with
      | error f' =>
        rw [hrest] at h
        cases h
        exact ih hrest
      | ok others =>
        rw [hrest] at h
        cases h

end Run

namespace Replay

variable {o : Options} {es : List Event}

/-- A capture is replayed to its end, but falls short of the threshold. -/
def Short (o : Options) (es : List Event) : Prop :=
  (∃ taken, ((Run.start o).feedAll es).answer = .ok taken) ∧
    ((Run.start o).feedAll es).state.tally.FallsShort o.threshold

theorem run_short_iff : Short o es ↔
    ∃ mapped total threshold, (run o es).answer = .error (.belowThreshold mapped total threshold) := by
  cases hfed : ((Run.start o).feedAll es).answer with
  | error f =>
    rw [run_of_error hfed]
    constructor
    · intro ⟨⟨taken, htaken⟩, _⟩
      rw [hfed] at htaken
      cases htaken
    · intro ⟨mapped, total, threshold, heq⟩
      cases heq
      exact absurd rfl (Run.feedAll_error_ne hfed mapped total threshold)
  | ok taken =>
    rw [run_of_ok hfed]
    constructor
    · intro ⟨_, hshort⟩
      exact ⟨_, _, _, if_pos hshort⟩
    · intro ⟨mapped, total, threshold, heq⟩
      split at heq
      · rename_i hshort
        exact ⟨⟨taken, hfed⟩, hshort⟩
      · cases heq

end Replay
namespace Program

namespace Trouble

theorem exitCode_cases (t : Trouble) : t.exitCode = 65 ∨ t.exitCode = 3 ∨ t.exitCode = 1 := by
  unfold exitCode
  split
  · exact .inl rfl
  · exact .inr (.inl rfl)
  · exact .inr (.inr rfl)

theorem exitCode_badCapture (fault : Capture.Fault) :
    ((badCapture fault).exitCode = 65 ↔ fault.OfRecord) ∧ (badCapture fault).exitCode ≠ 3 := by
  cases fault with
  | notText =>
    refine ⟨⟨?_, ?_⟩, by decide⟩
    · intro h
      cases h
    · intro ⟨_, _, _, h⟩
      cases h
  | badLine number cause column =>
    exact ⟨⟨fun _ => ⟨number, cause, column, rfl⟩, fun _ => rfl⟩, by simp [exitCode]⟩

theorem exitCode_failed (f : Failure) :
    ((failed f).exitCode = 3 ↔
      ∃ mapped total threshold, f = .belowThreshold mapped total threshold) ∧
      (failed f).exitCode ≠ 65 := by
  cases f with
  | belowThreshold mapped total threshold =>
    exact ⟨⟨fun _ => ⟨mapped, total, threshold, rfl⟩, fun _ => rfl⟩, by simp [exitCode]⟩
  | mappingRefused id pid filename refusal => simp [exitCode]
  | startLost pid addr => simp [exitCode]
  | startMoved real mapped => simp [exitCode]

end Trouble

variable {o : Options} {bytes : List UInt8} {t : Trouble}

/-- The bytes are those of a capture whose first bad line is text. -/
def Malformed (bytes : List UInt8) : Prop :=
  ∃ line, Capture.FirstBad bytes line ∧ Capture.IsText line

/-- The bytes are those of a capture that fails on the threshold alone. -/
def Short (o : Options) (bytes : List UInt8) : Prop :=
  ∃ events, Capture.read bytes = .ok events ∧ Replay.Short o events

/-- The exit code of a run that was given its bytes tells why it failed. -/
theorem exitCode_process (h : process o bytes = .error t) :
    (t.exitCode = 65 ↔ Malformed bytes) ∧ (t.exitCode = 3 ↔ Short o bytes) := by
  cases hread : Capture.read bytes with
  | error fault =>
    simp only [process, hread] at h
    cases h
    obtain ⟨hdata, hthreshold⟩ := Trouble.exitCode_badCapture fault
    constructor
    · rw [hdata]
      constructor
      · intro hrecord
        obtain ⟨line, hbad⟩ := Capture.exists_firstBad hread
        obtain ⟨fault', hfault', htext⟩ := Capture.read_of_firstBad hbad
        cases hread.symm.trans hfault'
        exact ⟨line, hbad, htext.2 hrecord⟩
      · intro ⟨line, hbad, htext⟩
        obtain ⟨fault', hfault', hrecord⟩ := Capture.read_of_firstBad hbad
        cases hread.symm.trans hfault'
        exact hrecord.1 htext
    · constructor
      · intro hcode
        exact absurd hcode hthreshold
      · intro ⟨events, hevents, _⟩
        cases hread.symm.trans hevents
  | ok events =>
    simp only [process, hread] at h
    split at h
    · rename_i failure hfailure
      cases h
      obtain ⟨hthreshold, hdata⟩ := Trouble.exitCode_failed failure
      constructor
      · constructor
        · intro hcode
          exact absurd hcode hdata
        · intro ⟨line, hbad, _⟩
          obtain ⟨fault, hfault, -⟩ := Capture.read_of_firstBad hbad
          cases hread.symm.trans hfault
      · rw [hthreshold]
        constructor
        · intro ⟨mapped, total, threshold, heq⟩
          rw [heq] at hfailure
          exact ⟨events, hread, Replay.run_short_iff.2 ⟨_, _, _, hfailure⟩⟩
        · intro ⟨events', hevents', hshort⟩
          cases hread.symm.trans hevents'
          obtain ⟨mapped, total, threshold, heq⟩ := Replay.run_short_iff.1 hshort
          rw [hfailure] at heq
          exact ⟨mapped, total, threshold, Except.error.inj heq⟩
    · cases h

/-- A run that was given its bytes goes well if they can be read and replayed. -/
theorem process_eq_ok_iff {replay : Replay} : process o bytes = .ok replay ↔
    ∃ events, Capture.read bytes = .ok events ∧ (Replay.run o events).answer = .ok replay := by
  cases hread : Capture.read bytes with
  | error fault => simp [process, hread]
  | ok events =>
    cases hrun : (Replay.run o events).answer with
    | error failure => simp [process, hread, hrun]
    | ok out => simp [process, hread, hrun]

end Program
end Unslide
