import Unslide.Proofs.Program
import Unslide.Proofs.Capture
import Unslide.Proofs.Trailing

/-!
# Unslide.Proofs.Lines

A capture put together from lines by hand. Between the lines that were written for records there may
be blank lines, each line may end with a line feed or with a carriage return and a line feed, and
the last line may lack its end. Reading such a capture comes to its records, in their order, up to
the first line that cannot be read; and this line is named by its number among all lines.

Where a line itself ends with a carriage return and then with a bare line feed, the carriage return
is not read. Neither white space nor a record nor text in UTF-8 depends on it (`readable_return`,
`isText_return`), so it does not matter on which side of the line's end it is counted.

* `readLines_proper`: lines that can be read.
* `linesOf_assembled`: the lines of a capture that was put together.
* `read_assembled`: what is read from it.
-/

namespace Unslide
namespace Capture

/-- What ends a line. -/
inductive Ending where
  | feed
  | returnFeed

/-- The bytes in front of the line feed of an end. -/
def Ending.front : Ending → List UInt8
  | .feed => []
  | .returnFeed => [carriageReturn]

def Ending.bytes (e : Ending) : List UInt8 := e.front ++ [lineFeed]

def bytesOf (cs : List Char) : List UInt8 := (String.ofList cs).toUTF8.data.toList

/-- A line that can be read: that of a record, or white space. -/
inductive Line where
  | record (e : Event)
  | blank (cs : List Char)

namespace Line

def bytes : Line → List UInt8
  | .record e => lineOf e
  | .blank cs => bytesOf cs

def record? : Line → Option Event
  | .record e => some e
  | .blank _ => none

/-- The record is in range, and the white space has no line feed in it. -/
def Proper : Line → Prop
  | .record e => e.InRange
  | .blank cs => ∀ c ∈ cs, Text.isBlank c = true ∧ c ≠ '\n'

end Line

/-- The bytes of lines with their ends. -/
def assembled (ls : List (Line × Ending)) : List UInt8 :=
  ls.flatMap fun l => l.1.bytes ++ l.2.bytes

def records (ls : List (Line × Ending)) : List Event := ls.filterMap fun l => l.1.record?

/-- The fault of a line that cannot be read: it is no text, or it is named by its number. -/
def Fault.Tells (fault : Fault) (line : List UInt8) (number : Nat) : Prop :=
  (¬ IsText line ∧ fault = .notText) ∨
    (IsText line ∧ ∃ cause column, fault = .badLine number cause column)

/-- What is read of a line with its end. -/
def ended (line : List UInt8) (e : Ending) : List UInt8 := endedLine (line ++ e.front).reverse

variable {line rest bytes : List UInt8} {number : Nat} {fault : Fault} {l : Line}
  {ls : List (Line × Ending)}

/-! ## Bytes of control characters -/

/-- A byte below the blank is that of a control character, which has no other. -/
theorem of_control_mem {c : Char} {b : UInt8} (hb : b ∈ String.utf8EncodeChar c)
    (hlow : b.toNat < 32) : c.toNat = b.toNat ∧ String.utf8EncodeChar c = [b] := by
  have hc : c.toNat < 32 := by
    by_contra hprints
    have hle := le_of_mem_utf8EncodeChar (Nat.le_of_not_lt hprints) hb
    omega
  have hval : c.val.toNat < 32 := hc
  have hcode : String.utf8EncodeChar c = [UInt8.ofNat c.toNat] := by
    unfold String.utf8EncodeChar
    exact if_pos (by omega)
  rw [hcode, List.mem_singleton] at hb
  rw [hcode, hb]
  refine ⟨?_, rfl⟩
  rw [UInt8.toNat_ofNat', Nat.mod_eq_of_lt (by omega)]

theorem lineFeed_not_mem_bytesOf {cs : List Char} (h : '\n' ∉ cs) : lineFeed ∉ bytesOf cs := by
  intro hfeed
  rw [bytesOf, bytes_ofList, List.mem_flatMap] at hfeed
  obtain ⟨c, hc, hb⟩ := hfeed
  have hcode := (of_control_mem hb (by decide)).1
  have hchar : c = '\n' := Char.toNat_inj.1 hcode
  exact h (hchar ▸ hc)

theorem fromUTF8?_bytesOf (cs : List Char) :
    String.fromUTF8? ⟨(bytesOf cs).toArray⟩ = some (String.ofList cs) := fromUTF8?_bytes _

theorem eq_bytesOf {text : String} (h : String.fromUTF8? ⟨line.toArray⟩ = some text) :
    line = bytesOf text.toList := by
  unfold String.fromUTF8? at h
  split at h
  · cases h
    rw [bytesOf, String.ofList_toList]
    rfl
  · cases h

theorem bytesOf_return (cs : List Char) :
    bytesOf (cs ++ ['\r']) = bytesOf cs ++ [carriageReturn] := by
  rw [bytesOf, bytesOf, bytes_ofList, bytes_ofList, List.flatMap_append]
  rfl

/-- Text that ends with the byte of a carriage return ends with that character. -/
theorem exists_of_return {cs : List Char} (h : line ++ [carriageReturn] = bytesOf cs) :
    ∃ ds, cs = ds ++ ['\r'] ∧ line = bytesOf ds := by
  rw [bytesOf, bytes_ofList] at h
  rcases List.eq_nil_or_concat cs with rfl | ⟨ds, c, rfl⟩
  · simp at h
  · rw [List.concat_eq_append, List.flatMap_append, List.flatMap_singleton] at h
    have hsplit := List.dropLast_concat_getLast (String.utf8EncodeChar_ne_nil (c := c))
    rw [← hsplit, ← List.append_assoc] at h
    obtain ⟨hline, hlast⟩ := List.append_inj' h rfl
    have hmem : carriageReturn ∈ String.utf8EncodeChar c := by
      rw [List.singleton_inj.1 hlast]
      exact List.getLast_mem _
    obtain ⟨hcode, hsingle⟩ := of_control_mem hmem (by decide)
    have hchar : c = '\r' := Char.toNat_inj.1 hcode
    refine ⟨ds, by rw [List.concat_eq_append, hchar], ?_⟩
    rw [hsingle] at hline
    rw [hline, bytesOf, bytes_ofList]
    exact List.append_nil _

theorem isText_iff : IsText line ↔ ∃ cs, line = bytesOf cs := by
  rw [IsText, Option.isSome_iff_exists]
  constructor
  · rintro ⟨text, htext⟩
    exact ⟨text.toList, eq_bytesOf htext⟩
  · rintro ⟨cs, rfl⟩
    exact ⟨_, fromUTF8?_bytesOf cs⟩

theorem isText_return : IsText (line ++ [carriageReturn]) ↔ IsText line := by
  rw [isText_iff, isText_iff]
  constructor
  · rintro ⟨cs, hcs⟩
    obtain ⟨ds, -, hds⟩ := exists_of_return hcs
    exact ⟨ds, hds⟩
  · rintro ⟨cs, rfl⟩
    exact ⟨cs ++ ['\r'], (bytesOf_return cs).symm⟩

/-- A carriage return behind a line is white space. -/
theorem readable_return (h : Readable line) : Readable (line ++ [carriageReturn]) := by
  obtain ⟨text, htext, hshown⟩ := h
  have hline := eq_bytesOf htext
  refine ⟨String.ofList (text.toList ++ ['\r']), ?_, ?_⟩
  · rw [hline, ← bytesOf_return]
    exact fromUTF8?_bytesOf _
  · simp only [Text.isBlankLine, String.toList_ofList]
    refine hshown.imp ?_ ?_
    · intro hblank
      rw [List.all_append, Bool.and_eq_true]
      exact ⟨hblank, by decide⟩
    · rintro ⟨e, he⟩
      exact ⟨e, Record.read_append_space he (List.forall_mem_singleton.2 rfl)⟩

/-! ## Lines and their ends -/

theorem endedLine_cases (line : List UInt8) :
    endedLine line.reverse = line ∨ line = endedLine line.reverse ++ [carriageReturn] := by
  rcases List.eq_nil_or_concat line with rfl | ⟨front, b, rfl⟩
  · exact .inl rfl
  · rw [List.concat_eq_append, List.reverse_append, List.reverse_singleton, List.singleton_append,
      endedLine]
    split
    · rename_i hb
      right
      rw [hb, List.reverse_reverse]
    · left
      rw [List.reverse_cons, List.reverse_reverse]

/-- The end of a line leaves the line, or takes a carriage return from it. -/
theorem ended_cases (line : List UInt8) (e : Ending) :
    ended line e = line ∨ line = ended line e ++ [carriageReturn] := by
  cases e with
  | feed =>
    rw [ended, Ending.front, List.append_nil]
    exact endedLine_cases line
  | returnFeed =>
    left
    rw [ended, Ending.front, List.reverse_append, List.reverse_singleton, List.singleton_append,
      endedLine, if_pos rfl, List.reverse_reverse]

theorem linesOf_append (h : lineFeed ∉ line) (e : Ending) (rest : List UInt8) :
    linesOf (line ++ e.bytes ++ rest) = ended line e :: linesOf rest := by
  have hfront : lineFeed ∉ line ++ e.front := by
    rw [List.mem_append, not_or]
    refine ⟨h, ?_⟩
    cases e <;> decide
  have hline := linesFrom_line hfront [] rest
  rw [List.append_nil] at hline
  rw [linesOf, Ending.bytes, ← List.append_assoc line, List.append_assoc _ [lineFeed],
    List.singleton_append, hline]
  rfl

/-- The last line may lack its end. By induction on it. -/
theorem linesFrom_last (h : lineFeed ∉ line) (done : List UInt8)
    (hne : line.reverse ++ done ≠ []) : linesFrom done line = [(line.reverse ++ done).reverse] := by
  induction line generalizing done with
  | nil =>
    cases done with
    | nil => exact absurd rfl hne
    | cons b done => rfl
  | cons b line ih =>
    rw [List.mem_cons, not_or] at h
    rw [List.reverse_cons, List.append_assoc, List.singleton_append] at hne ⊢
    rw [linesFrom, if_neg (Ne.symm h.1), ih h.2 _ hne]

theorem linesOf_last (h : lineFeed ∉ line) (hne : line ≠ []) : linesOf line = [line] := by
  have hlast := linesFrom_last h [] (by simpa using hne)
  rw [List.append_nil, List.reverse_reverse] at hlast
  exact hlast

/-! ## Lines that can be read -/

theorem lineFeed_not_mem_bytes (hl : l.Proper) : lineFeed ∉ l.bytes := by
  cases l with
  | record e => exact lineFeed_not_mem_of_prints (prints_lineOf hl)
  | blank cs => exact lineFeed_not_mem_bytesOf fun hfeed => (hl _ hfeed).2 rfl

theorem readLine_blank {cs : List Char} (h : ∀ c ∈ cs, Text.isBlank c = true) (number : Nat) :
    readLine number (bytesOf cs) = .ok none := by
  have hblank : Text.isBlankLine (String.ofList cs) = true := by
    rw [Text.isBlankLine, String.toList_ofList]
    exact List.all_eq_true.2 h
  simp only [readLine, fromUTF8?_bytesOf, hblank, if_true]

theorem readLine_proper (hl : l.Proper) (number : Nat) :
    readLine number l.bytes = .ok l.record? := by
  cases l with
  | record e => exact readLine_lineOf hl number
  | blank cs => exact readLine_blank (fun c hc => (hl c hc).1) number

theorem readLine_ended (hl : l.Proper) (e : Ending) (number : Nat) :
    readLine number (ended l.bytes e) = .ok l.record? := by
  rcases ended_cases l.bytes e with hsame | hreturn
  · rw [hsame]
    exact readLine_proper hl number
  · cases l with
    | record event =>
      have hmem : carriageReturn ∈ lineOf event := by
        rw [show lineOf event = _ from hreturn]
        simp
      exact absurd rfl (ne_of_prints (prints_lineOf hl _ hmem) (by decide))
    | blank cs =>
      obtain ⟨ds, rfl, hds⟩ := exists_of_return hreturn.symm
      rw [hds]
      exact readLine_blank (fun c hc => (hl c (List.mem_append_left _ hc)).1) number

/-- Lines that can be read, and then others. By induction on the lines. -/
theorem readLines_proper (hls : ∀ l ∈ ls, l.1.Proper) (number : Nat)
    (others : List (List UInt8)) :
    readLines number ((ls.map fun l => ended l.1.bytes l.2) ++ others) =
      (readLines (number + ls.length) others).map (records ls ++ ·) := by
  induction ls generalizing number with
  | nil =>
    rw [List.map_nil, List.nil_append, List.length_nil, Nat.add_zero]
    cases readLines number others <;> rfl
  | cons l ls ih =>
    have hmore := ih (fun d hd => hls d (List.mem_cons_of_mem _ hd)) (number + 1)
    rw [List.map_cons, List.cons_append, readLines, readLine_ended (hls l List.mem_cons_self),
      List.length_cons, Nat.add_comm ls.length, ← Nat.add_assoc, hmore]
    cases readLines (number + 1 + ls.length) others with
    | error fault => rfl
    | ok events =>
      simp only [Except.map, records, List.filterMap_cons]
      cases l.1.record? <;> rfl

/-- The lines of a capture that was put together are its lines without their ends. -/
theorem linesOf_assembled (hls : ∀ l ∈ ls, l.1.Proper) (rest : List UInt8) :
    linesOf (assembled ls ++ rest) =
      (ls.map fun l => ended l.1.bytes l.2) ++ linesOf rest := by
  induction ls with
  | nil => rfl
  | cons l ls ih =>
    have hmore := ih fun d hd => hls d (List.mem_cons_of_mem _ hd)
    rw [assembled, List.flatMap_cons, List.append_assoc,
      linesOf_append (lineFeed_not_mem_bytes (hls l List.mem_cons_self))]
    rw [assembled] at hmore
    rw [hmore]
    rfl

theorem read_assembled_append (hls : ∀ l ∈ ls, l.1.Proper) (rest : List UInt8) :
    read (assembled ls ++ rest) =
      (readLines (ls.length + 1) (linesOf rest)).map (records ls ++ ·) := by
  rw [read, linesOf_assembled hls, readLines_proper hls, Nat.add_comm]

/-! ## Lines that cannot be read -/

theorem tells_of_readLine (h : readLine number line = .error fault) : fault.Tells line number := by
  simp only [readLine] at h
  split at h
  · rename_i hnone
    cases h
    exact .inl ⟨by simp [IsText, hnone], rfl⟩
  · rename_i text htext
    split at h
    · cases h
    · split at h
      · cases h
      · cases h
        exact .inr ⟨by simp [IsText, htext], _, _, rfl⟩

theorem not_readable_ended (h : ¬ Readable line) (e : Ending) : ¬ Readable (ended line e) := by
  rcases ended_cases line e with hsame | hreturn
  · rw [hsame]
    exact h
  · intro hread
    rw [hreturn] at h
    exact h (readable_return hread)

theorem isText_ended (line : List UInt8) (e : Ending) : IsText (ended line e) ↔ IsText line := by
  rcases ended_cases line e with hsame | hreturn
  · rw [hsame]
  · rw [← isText_return, ← hreturn]

theorem exists_fault_of_not_readable (h : ¬ Readable line) (number : Nat) :
    ∃ fault, readLine number line = .error fault ∧ Fault.Tells fault line number := by
  obtain ⟨fault, hfault, -⟩ := readLine_of_not_readable h number
  exact ⟨fault, hfault, tells_of_readLine hfault⟩

/-- **A capture is read line by line.** Of lines for records, with blank lines between them and
either end behind each line or none behind the last, exactly the records are read. Behind such lines
a line that cannot be read decides what is read, whatever comes behind it: the fault is that of the
line, which is no text, or is named by its number among all lines. -/
theorem read_assembled (hls : ∀ l ∈ ls, l.1.Proper) :
    read (assembled ls) = .ok (records ls) ∧
    (∀ last : Line, last.Proper →
      read (assembled ls ++ last.bytes) = .ok (records ls ++ last.record?.toList)) ∧
    ∀ bad, lineFeed ∉ bad → ¬ Readable bad →
      (∀ e : Ending, ∃ fault : Fault, fault.Tells bad (ls.length + 1) ∧
        readLine (ls.length + 1) (ended bad e) = .error fault ∧
        ∀ after, read (assembled ls ++ (bad ++ e.bytes ++ after)) = .error fault) ∧
      ∃ fault : Fault, fault.Tells bad (ls.length + 1) ∧
        readLine (ls.length + 1) bad = .error fault ∧
        read (assembled ls ++ bad) = .error fault := by
  refine ⟨?whole, ?cut, ?bad⟩
  case whole =>
    have hread := read_assembled_append hls []
    rw [List.append_nil] at hread
    rw [hread, linesOf_nil]
    exact congrArg Except.ok (List.append_nil _)
  case cut =>
    intro last hlast
    have hline := readLine_proper hlast (ls.length + 1)
    rw [read_assembled_append hls]
    by_cases hempty : last.bytes = []
    · have hnone : last.record? = none := by
        have hblank := readLine_blank (List.forall_mem_nil _) (ls.length + 1)
        rw [hempty] at hline
        exact Except.ok.inj (hline.symm.trans hblank)
      rw [hempty, hnone, linesOf_nil]
      rfl
    · rw [linesOf_last (lineFeed_not_mem_bytes hlast) hempty, readLines, hline]
      simp only [readLines, List.append_nil, Except.map]
  case bad =>
    intro bad hfeed hbad
    constructor
    · intro e
      obtain ⟨fault, hfault, htells⟩ :=
        exists_fault_of_not_readable (not_readable_ended hbad e) (ls.length + 1)
      rw [Fault.Tells, isText_ended] at htells
      refine ⟨fault, htells, hfault, ?_⟩
      intro after
      rw [read_assembled_append hls, linesOf_append hfeed, readLines, hfault]
      rfl
    · obtain ⟨fault, hfault, htells⟩ := exists_fault_of_not_readable hbad (ls.length + 1)
      refine ⟨fault, htells, hfault, ?_⟩
      have hne : bad ≠ [] := by
        rintro rfl
        exact hbad ⟨"", rfl, .inl rfl⟩
      rw [read_assembled_append hls, linesOf_last hfeed hne, readLines, hfault]
      rfl

/-- Two records, one with line ends in a name, among blank lines and lines with both ends; one blank
line ends with a carriage return of its own. Then a byte that is no text, with or without an end,
and text that is no record, in line five whatever stands behind it. -/
theorem read_assembled_with_bad_lines :
    let es : List Event := [.comm ⟨7, 7, "\r\n \n"⟩, .fork ⟨1, 2, 3, 4⟩]
    let ls : List (Line × Ending) := [(.blank ['\u00a0', '\t', '\r'], .feed),
      (.record (.comm ⟨7, 7, "\r\n \n"⟩), .returnFeed), (.blank [], .feed),
      (.record (.fork ⟨1, 2, 3, 4⟩), .feed)]
    read (assembled ls) = .ok es ∧
      read (assembled ls ++ (Line.record (.exit ⟨1, 2, 3, 4⟩)).bytes) =
        .ok (es ++ [.exit ⟨1, 2, 3, 4⟩]) ∧
      (∀ after, read (assembled ls ++ ([0xff] ++ [carriageReturn, lineFeed] ++ after)) =
        .error .notText) ∧
      read (assembled ls ++ [0xff]) = .error .notText ∧
      ∃ cause column, ∀ after,
        read (assembled ls ++ (bytesOf ['x', '\r'] ++ [lineFeed] ++ after)) =
          .error (.badLine 5 cause column) := by
  intro es ls
  have hls : ∀ l ∈ ls, l.1.Proper := by
    simp only [ls, List.forall_mem_cons]
    refine ⟨?_, ?_, List.forall_mem_nil _, ?_, List.forall_mem_nil _⟩
    · simp only [Line.Proper, List.forall_mem_cons]
      exact ⟨by decide, by decide, by decide, List.forall_mem_nil _⟩
    · simp [Line.Proper, Event.InRange, topId]
    · simp [Line.Proper, Event.InRange, topId]
  obtain ⟨hwhole, hcut, hbad⟩ := read_assembled hls
  have hnone : String.fromUTF8? ⟨([0xff] : List UInt8).toArray⟩ = none := rfl
  have hbyte : ¬ IsText [0xff] := by simp [IsText, hnone]
  have hnever : ¬ Readable [0xff] := by
    rintro ⟨text, htext, -⟩
    rw [hnone] at htext
    cases htext
  have hword : ¬ Readable (bytesOf ['x', '\r']) := by
    rintro ⟨text, htext, hshown⟩
    rw [fromUTF8?_bytesOf] at htext
    cases htext
    rcases hshown with hblank | ⟨e, he⟩
    · exact absurd hblank (by decide)
    · cases he
  refine ⟨hwhole, hcut _ ?_, ?_, ?_, ?_⟩
  · simp [Line.Proper, Event.InRange, topId]
  · obtain ⟨fault, htells, -, hread⟩ := (hbad [0xff] (by decide) hnever).1 .returnFeed
    rcases htells with ⟨-, rfl⟩ | ⟨htext, -⟩
    · exact hread
    · exact absurd htext hbyte
  · obtain ⟨fault, htells, -, hread⟩ := (hbad [0xff] (by decide) hnever).2
    rcases htells with ⟨-, rfl⟩ | ⟨htext, -⟩
    · exact hread
    · exact absurd htext hbyte
  · have hfeed : lineFeed ∉ bytesOf ['x', '\r'] := lineFeed_not_mem_bytesOf (by decide)
    obtain ⟨fault, htells, -, hread⟩ := (hbad _ hfeed hword).1 .feed
    rcases htells with ⟨hno, -⟩ | ⟨-, cause, column, rfl⟩
    · exact absurd (isText_iff.2 ⟨_, rfl⟩) hno
    · exact ⟨cause, column, hread⟩

end Capture
end Unslide
