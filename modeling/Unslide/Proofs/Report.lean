import Unslide.Proofs.Capture
import Unslide.Report

/-!
# Unslide.Proofs.Report

A report has one line for each sample. Names are quoted, and a quote has no control character
between its marks; so the line feeds of a report are those behind its lines.

* `prints_json`: what is written for a sample.
* `linesOf_text`: the lines of a report.
-/

namespace Unslide
namespace Report

open Json

theorem prints_number (n : Nat) : ∀ c ∈ number n, 32 ≤ c.toNat := fun _ hc =>
  le_of_isDigit (Nat.isDigit_of_mem_toDigits (by decide) (by decide) hc)

theorem prints_flag (b : Bool) : ∀ c ∈ flag b, 32 ≤ c.toNat :=
  (spells_flag b).prints

theorem prints_array {items : List (List Char)} (h : ∀ cs ∈ items, ∀ c ∈ cs, 32 ≤ c.toNat) :
    ∀ c ∈ array items, 32 ≤ c.toNat :=
  prints_enclosed (by decide) (by decide) (prints_separated h)

theorem prints_object {members : List (String × List Char)}
    (h : ∀ m ∈ members, ∀ c ∈ m.2, 32 ≤ c.toNat) : ∀ c ∈ object members, 32 ≤ c.toNat := by
  refine prints_enclosed (by decide) (by decide) (prints_separated ?_)
  intro cs hcs
  obtain ⟨m, hm, rfl⟩ := List.mem_map.1 hcs
  exact prints_member (h m hm) m.1

theorem prints_place (p : Place) : ∀ c ∈ p.json, 32 ≤ c.toNat := by
  refine prints_object ?_
  simp only [List.forall_mem_cons, List.not_mem_nil, false_imp_iff, implies_true, and_true]
  exact ⟨prints_quoted _, prints_number _⟩

theorem prints_jump (j : Jump) : ∀ c ∈ j.json, 32 ≤ c.toNat := by
  refine prints_object ?_
  simp only [List.forall_mem_cons, List.not_mem_nil, false_imp_iff, implies_true, and_true]
  exact ⟨prints_place _, prints_place _, prints_flag _⟩

theorem prints_json (l : Line) : ∀ c ∈ l.json, 32 ≤ c.toNat := by
  have hplaces : ∀ cs ∈ l.callchain.map Place.json, ∀ c ∈ cs, 32 ≤ c.toNat := by
    intro cs hcs
    obtain ⟨p, -, rfl⟩ := List.mem_map.1 hcs
    exact prints_place p
  have hjumps : ∀ cs ∈ l.branches.map Jump.json, ∀ c ∈ cs, 32 ≤ c.toNat := by
    intro cs hcs
    obtain ⟨j, -, rfl⟩ := List.mem_map.1 hcs
    exact prints_jump j
  refine prints_object ?_
  intro m hm
  simp only [List.mem_append, List.mem_cons, List.not_mem_nil, or_false] at hm
  rcases hm with ((rfl | rfl) | hcommand) | (rfl | rfl | rfl | rfl)
  · exact prints_number _
  · exact prints_number _
  · cases hname : l.command with
    | none =>
      rw [hname] at hcommand
      cases hcommand
    | some name =>
      rw [hname, List.mem_singleton] at hcommand
      rw [hcommand]
      exact prints_quoted name
  · cases l.ip with
    | none => exact le_of_all rfl
    | some p => exact prints_place p
  · exact prints_array hplaces
  · exact prints_array hjumps
  · exact prints_flag _

/-- The bytes of what is written for a sample. -/
def bytesOf (l : Line) : List UInt8 := (String.ofList l.json).toUTF8.data.toList

/-- The lines of a report are what is written for its samples, one line for each. -/
theorem linesOf_text (lines : List Line) :
    Capture.linesOf (text lines).toUTF8.data.toList = lines.map bytesOf := by
  have hprints : ∀ line ∈ lines.map bytesOf, ∀ b ∈ line, 32 ≤ b.toNat := by
    intro line hline
    obtain ⟨l, -, rfl⟩ := List.mem_map.1 hline
    exact Capture.prints_bytes (prints_json l)
  have hbytes : (text lines).toUTF8.data.toList =
      (lines.map bytesOf).flatMap fun line => line ++ [Capture.lineFeed] := by
    simp only [text, Capture.bytes_ofList, bytesOf, List.flatMap_map, List.flatMap_assoc,
      List.flatMap_append]
    rfl
  rw [hbytes, Capture.linesOf_flatMap hprints]

end Report
end Unslide
