import Mathlib.Data.Finset.Card
import Mathlib.Data.List.Induction

/-!
# Unslide.Proofs.Numbering

Names that are numbered in the order in which they are first asked for. A table answers the number of
a name that it knows, and gives its next number to one that it does not know. So the table is the
list of all names that were asked for, each once and where it first appeared, and what was answered
for a name is its number for good.

* `Numbering.known`, `Numbering.fresh`: one more answer.
* `Numbering.number_eq_iff`, `Numbering.length_eq`: what follows for the numbers.
* `Numbering.of_calls`: whatever calls a table has been through.
-/

namespace Unslide

variable {table : List String} {answers : List (String × Nat)} {name : String} {id : Nat}

/-- The names of a table against the answers that it gave, oldest first: names and their numbers. -/
structure Numbering (table : List String) (answers : List (String × Nat)) : Prop where
  /-- Each name that was asked for is there once, in the order of the first questions. -/
  firsts : table = (answers.map Prod.fst).eraseDups
  /-- The number that was answered for a name is its number still. -/
  numbers : ∀ p ∈ answers, table[p.2]? = some p.1

/-! ## First appearances -/

theorem eraseDups_concat (names : List String) (name : String) :
    (names ++ [name]).eraseDups =
      if name ∈ names then names.eraseDups else names.eraseDups ++ [name] := by
  rw [List.eraseDups_append]
  by_cases h : name ∈ names <;> simp [List.removeAll, List.eraseDups_cons, h]

theorem nodup_eraseDups (names : List String) : names.eraseDups.Nodup := by
  induction names using List.reverseRecOn with
  | nil => exact .nil
  | append_singleton names name ih =>
    rw [eraseDups_concat]
    split
    · exact ih
    · rename_i hnew
      refine List.nodup_append.2 ⟨ih, List.nodup_singleton _, ?_⟩
      intro a ha b hb heq
      rw [List.mem_singleton] at hb
      rw [heq, hb, List.mem_eraseDups] at ha
      exact hnew ha

/-- What stands in a table keeps its position when the table grows at its end. -/
theorem getElem?_of_grown {grown : List String} (h : table <+: grown)
    (hid : table[id]? = some name) : grown[id]? = some name := by
  obtain ⟨more, rfl⟩ := h
  rw [List.getElem?_append_left (List.getElem?_eq_some_iff.1 hid).1]
  exact hid

/-! ## One more answer -/

namespace Numbering

theorem nil : Numbering [] [] := ⟨rfl, by simp⟩

theorem nodup (h : Numbering table answers) : table.Nodup := by
  rw [h.firsts]
  exact nodup_eraseDups _

theorem mem_iff (h : Numbering table answers) : name ∈ table ↔ name ∈ answers.map Prod.fst := by
  rw [h.firsts, List.mem_eraseDups]

/-- A name that is in the table keeps its number. -/
theorem known (h : Numbering table answers) (hid : table[id]? = some name) :
    Numbering table (answers ++ [(name, id)]) where
  firsts := by
    have hin : name ∈ answers.map Prod.fst := h.mem_iff.1 (List.mem_of_getElem? hid)
    rw [List.map_append, List.map_singleton, eraseDups_concat, if_pos hin]
    exact h.firsts
  numbers p hp := by
    rw [List.mem_append, List.mem_singleton] at hp
    rcases hp with hp | rfl
    · exact h.numbers p hp
    · exact hid

/-- A name that is not in the table gets the next number. -/
theorem fresh (h : Numbering table answers) (hnew : name ∉ table) :
    Numbering (table ++ [name]) (answers ++ [(name, table.length)]) where
  firsts := by
    rw [h.mem_iff] at hnew
    rw [List.map_append, List.map_singleton, eraseDups_concat, if_neg hnew, ← h.firsts]
  numbers p hp := by
    rw [List.mem_append, List.mem_singleton] at hp
    rcases hp with hp | rfl
    · exact getElem?_of_grown (List.prefix_append _ _) (h.numbers p hp)
    · exact List.getElem?_concat_length

/-! ## Numbers -/

/-- Equal numbers were answered for equal names, and for no others. -/
theorem number_eq_iff (h : Numbering table answers) {p q : String × Nat} (hp : p ∈ answers)
    (hq : q ∈ answers) : p.2 = q.2 ↔ p.1 = q.1 := by
  have hpn := h.numbers p hp
  have hqn := h.numbers q hq
  constructor
  · intro heq
    rw [heq, hqn] at hpn
    exact (Option.some.inj hpn).symm
  · intro heq
    rw [heq, ← hqn] at hpn
    exact (List.getElem?_inj (List.getElem?_eq_some_iff.1 (hpn.trans hqn)).1 h.nodup).1 hpn

/-- There are as many names as different ones were asked for. -/
theorem length_eq (h : Numbering table answers) :
    table.length = (answers.map Prod.fst).toFinset.card := by
  rw [← List.toFinset_card_of_nodup h.nodup]
  congr 1
  ext name
  rw [List.mem_toFinset, List.mem_toFinset, h.mem_iff]

end Numbering

/-! ## Sequences of calls -/

variable {σ γ : Type} {perform : σ → γ → σ} {answer : σ → γ → List (String × Nat)}
  {names : σ → List String} {s : σ}

/-- What calls that follow each other are answered. -/
def collect (perform : σ → γ → σ) (answer : σ → γ → List (String × Nat)) (s : σ) :
    List γ → List (String × Nat)
  | [] => []
  | c :: rest => answer s c ++ collect perform answer (perform s c) rest

/-- If every call keeps the answers right, so does every sequence of calls. -/
theorem Numbering.of_calls (h : Numbering (names s) answers)
    (hstep : ∀ {s answers} c, Numbering (names s) answers →
      Numbering (names (perform s c)) (answers ++ answer s c)) (calls : List γ) :
    Numbering (names (calls.foldl perform s)) (answers ++ collect perform answer s calls) := by
  induction calls generalizing s answers with
  | nil =>
    rw [collect, List.append_nil]
    exact h
  | cons c rest ih =>
    rw [collect, ← List.append_assoc]
    exact ih (hstep c h)

end Unslide
