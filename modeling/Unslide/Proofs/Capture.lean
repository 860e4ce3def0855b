import Unslide.Capture
import Unslide.Proofs.Record

/-!
# Unslide.Proofs.Capture

Reading undoes writing for whole captures. What is written for a record has no control character,
and neither has any byte of a character beyond them, so the line feeds of a capture are those
behind its records, and no carriage return stands in front of one.

* `linesOf_written`: the lines of what is written are the records, one in each.
* `read_text`: a capture is read back as it was written.
-/

namespace Unslide
namespace Capture

/-- The bytes of what is written for a record. -/
def lineOf (e : Event) : List UInt8 := (String.ofList (Record.written e)).toUTF8.data.toList

theorem bytes_ofList (cs : List Char) :
    (String.ofList cs).toUTF8.data.toList = cs.flatMap String.utf8EncodeChar := by
  rw [String.toUTF8_eq_toByteArray, String.toByteArray_ofList, List.utf8Encode,
    List.toList_data_toByteArray]

theorem fromUTF8?_bytes (s : String) : String.fromUTF8? ⟨s.toUTF8.data.toList.toArray⟩ = some s := by
  have hbytes : (⟨s.toUTF8.data.toList.toArray⟩ : ByteArray) = s.toByteArray := by
    rw [String.toUTF8_eq_toByteArray, Array.toArray_toList]
  rw [hbytes, String.fromUTF8?, dif_pos s.isValidUTF8]
  rfl

theorem le_toNat_ofNat {k : Nat} (hle : 32 ≤ k) (hlt : k < 256) : 32 ≤ (UInt8.ofNat k).toNat := by
  rw [UInt8.toNat_ofNat', Nat.mod_eq_of_lt hlt]
  exact hle

/-- Only control characters are written with bytes below the blank: a character of several bytes
has the highest bit set in all of them. -/
theorem le_of_mem_utf8EncodeChar {c : Char} (hc : 32 ≤ c.toNat) {b : UInt8}
    (hb : b ∈ String.utf8EncodeChar c) : 32 ≤ b.toNat := by
  have hval : 32 ≤ c.val.toNat := hc
  unfold String.utf8EncodeChar at hb
  generalize c.val.toNat = v at hb hval
  simp only at hb
  split at hb
  · rw [List.mem_singleton] at hb
    rw [hb]
    exact le_toNat_ofNat hval (by omega)
  · split at hb
    · simp only [List.mem_cons, List.not_mem_nil, or_false] at hb
      rcases hb with hb | hb <;> rw [hb] <;> exact le_toNat_ofNat (by omega) (by omega)
    · split at hb
      · simp only [List.mem_cons, List.not_mem_nil, or_false] at hb
        rcases hb with hb | hb | hb <;> rw [hb] <;> exact le_toNat_ofNat (by omega) (by omega)
      · simp only [List.mem_cons, List.not_mem_nil, or_false] at hb
        rcases hb with hb | hb | hb | hb <;> rw [hb] <;>
          exact le_toNat_ofNat (by omega) (by omega)

theorem prints_bytes {cs : List Char} (h : ∀ c ∈ cs, 32 ≤ c.toNat) :
    ∀ b ∈ (String.ofList cs).toUTF8.data.toList, 32 ≤ b.toNat := by
  intro b hb
  rw [bytes_ofList, List.mem_flatMap] at hb
  obtain ⟨c, hc, hb⟩ := hb
  exact le_of_mem_utf8EncodeChar (h c hc) hb

theorem prints_lineOf {e : Event} (he : e.InRange) : ∀ b ∈ lineOf e, 32 ≤ b.toNat :=
  prints_bytes (Record.prints_written he)

theorem ne_of_prints {b control : UInt8} (hb : 32 ≤ b.toNat) (hcontrol : control.toNat < 32) :
    b ≠ control := by
  intro heq
  rw [heq] at hb
  omega

theorem endedLine_of_prints {done : List UInt8} (h : ∀ b ∈ done, 32 ≤ b.toNat) :
    endedLine done = done.reverse := by
  cases done with
  | nil => rfl
  | cons b rest =>
    have hb : b ≠ carriageReturn := ne_of_prints (h b List.mem_cons_self) (by decide)
    rw [endedLine, if_neg hb]

/-- A line goes up to the next line feed. By induction on it. -/
theorem linesFrom_line {line : List UInt8} (h : lineFeed ∉ line) (done rest : List UInt8) :
    linesFrom done (line ++ lineFeed :: rest) =
      endedLine (line.reverse ++ done) :: linesFrom [] rest := by
  induction line generalizing done with
  | nil => rw [List.nil_append, linesFrom, if_pos rfl, List.reverse_nil, List.nil_append]
  | cons b line ih =>
    rw [List.mem_cons, not_or] at h
    rw [List.cons_append, linesFrom, if_neg (Ne.symm h.1), ih h.2, List.reverse_cons,
      List.append_assoc, List.singleton_append]

theorem lineFeed_not_mem_of_prints {line : List UInt8} (h : ∀ b ∈ line, 32 ≤ b.toNat) :
    lineFeed ∉ line :=
  fun hfeed => ne_of_prints (h _ hfeed) (by decide) rfl

/-- What is written for a capture: the line of each record and a line feed behind it. -/
theorem bytes_text (es : List Event) :
    (text es).toUTF8.data.toList = es.flatMap fun e => lineOf e ++ [lineFeed] := by
  simp only [text, bytes_ofList, lineOf, List.flatMap_assoc, List.flatMap_append]
  rfl

/-- Lines without control characters, with a line feed behind each, are the lines of their text. -/
theorem linesOf_flatMap {lines : List (List UInt8)} (h : ∀ line ∈ lines, ∀ b ∈ line, 32 ≤ b.toNat) :
    linesOf (lines.flatMap fun line => line ++ [lineFeed]) = lines := by
  induction lines with
  | nil => rfl
  | cons line lines ih =>
    have hrest := ih fun other ho => h other (List.mem_cons_of_mem _ ho)
    have hprints := h line List.mem_cons_self
    have hended : endedLine (line.reverse ++ []) = line := by
      rw [List.append_nil, endedLine_of_prints fun b hb => hprints b (List.mem_reverse.1 hb),
        List.reverse_reverse]
    rw [linesOf] at hrest ⊢
    rw [List.flatMap_cons, List.append_assoc, List.singleton_append,
      linesFrom_line (lineFeed_not_mem_of_prints hprints), hended, hrest]

theorem linesOf_written {es : List Event} (hes : ∀ e ∈ es, e.InRange) :
    linesOf (es.flatMap fun e => lineOf e ++ [lineFeed]) = es.map lineOf := by
  have hprints : ∀ line ∈ es.map lineOf, ∀ b ∈ line, 32 ≤ b.toNat := by
    intro line hline
    obtain ⟨e, he, rfl⟩ := List.mem_map.1 hline
    exact prints_lineOf (hes e he)
  have hlines := linesOf_flatMap hprints
  rw [List.flatMap_map] at hlines
  exact hlines

theorem readLine_lineOf {e : Event} (he : e.InRange) (line : Nat) :
    readLine line (lineOf e) = .ok (some e) := by
  have hshown : Text.isBlankLine (String.ofList (Record.written e)) = false := by
    rw [Text.isBlankLine, String.toList_ofList, Record.written_eq, List.all_cons]
    rfl
  rw [readLine, lineOf, fromUTF8?_bytes]
  simp only [hshown, Bool.false_eq_true, if_false, String.toList_ofList, Record.read_written he]

theorem readLines_written {es : List Event} (hes : ∀ e ∈ es, e.InRange) (line : Nat) :
    readLines line (es.map lineOf) = .ok es := by
  induction es generalizing line with
  | nil => rfl
  | cons e es ih =>
    have hrest := ih (fun d hd => hes d (List.mem_cons_of_mem _ hd)) (line + 1)
    simp only [List.map_cons, readLines, readLine_lineOf (hes e List.mem_cons_self), hrest]
    rfl

/-- **A capture is read back as it was written**, and it is written as one line for each record,
which ends at a line feed and has no other. -/
theorem read_text {es : List Event} (hes : ∀ e ∈ es, e.InRange) :
    read (text es).toUTF8.data.toList = .ok es ∧
      (text es).toUTF8.data.toList = (es.flatMap fun e => lineOf e ++ [lineFeed]) ∧
      ∀ e ∈ es, lineFeed ∉ lineOf e := by
  refine ⟨?_, bytes_text es, ?_⟩
  · rw [bytes_text, read, linesOf_written hes]
    exact readLines_written hes 1
  · intro e he hfeed
    exact ne_of_prints (prints_lineOf (hes e he) _ hfeed) (by decide) rfl

/-- A record of each kind, with the highest numbers and with names of quotes, backslashes, line
ends, other control characters and characters of several bytes. -/
theorem read_text_of_each_kind :
    let es : List Event :=
      [.mmap ⟨topId, 0, top, top, top, "a \"b\" \\c\n\r\n\t\x00\x1f \u00e9\u2028.so", true⟩,
        .fork ⟨1, 2, 3, topId⟩, .exit ⟨1, 2, 3, topId⟩, .comm ⟨7, 7, "\n"⟩,
        .sample ⟨7, 7, top, [0, top], [⟨1, top, true⟩, ⟨0, 0, false⟩]⟩]
    (∀ e ∈ es, e.InRange) ∧ read (text es).toUTF8.data.toList = .ok es := by
  intro es
  have hes : ∀ e ∈ es, e.InRange := by
    simp [es, Event.InRange, top, topId]
  exact ⟨hes, (read_text hes).1⟩

end Capture
end Unslide
