import Unslide.Images
import Unslide.Proofs.Numbering

/-!
# Unslide.Proofs.Images

The table of images, as the list of its names. A name is found, read back and given a number by this
list alone; what else is known of an image does not matter.

* `lookup?_congr`: tables with the same names find the same numbers.
* `names_record`: a hit changes no name.
* `nameOf?_intern_of_known`: the names that were there keep their numbers.
* `intern_congr`: tables with the same names go on alike.
* `get?_record`, `exists_get?_intern`: what a hit and a new mapping do to the images.
* `Registers`: names and marks of the kernel, told from the questions that the table was asked.
* `numbering_performAll`: the numbers that a table answers, whatever calls it has been through.
* `Thread.ascending_insert`: the threads of an image stay in order.
-/

namespace Unslide
namespace Images

variable {t u : Images} {id : Nat}

theorem lookup?_congr (h : u.names = t.names) (name : String) :
    u.lookup? name = t.lookup? name := by
  have hindexed : Indexes u.numbers t.names := h ▸ u.indexed
  exact hindexed.lookup_congr t.indexed name

theorem lookup?_eq_none_iff {name : String} : t.lookup? name = none ↔ name ∉ t.names :=
  t.indexed.lookup_eq_none_iff

theorem size_eq (t : Images) : t.size = t.names.length := by
  rw [size, names, List.length_map]

theorem names_record (t : Images) (id : Nat) (thread : Thread) :
    (t.record id thread).names = t.names :=
  names_modify t id _

theorem names_intern (t : Images) (name : String) (kernel : Bool) :
    (t.intern name kernel).1.names =
      if (t.lookup? name).isSome then t.names else t.names ++ [name] := by
  cases hfound : t.lookup? name with
  | some id =>
    rw [intern_known hfound, names_modify]
    rfl
  | none =>
    rw [intern_new hfound]
    exact names_add kernel hfound

theorem nameOf?_intern_of_known {known : String} (h : t.nameOf? id = some known) (name : String)
    (kernel : Bool) : (t.intern name kernel).1.nameOf? id = some known := by
  rw [nameOf?_eq] at h ⊢
  rw [names_intern]
  split
  · exact h
  · rw [List.getElem?_append_left (List.getElem?_eq_some_iff.1 h).1, h]

theorem number_intern (t : Images) (name : String) (kernel : Bool) :
    (t.intern name kernel).2 = (t.lookup? name).getD t.size := by
  cases hfound : t.lookup? name with
  | some id => rw [intern_known hfound, Option.getD_some]
  | none => rw [intern_new hfound, Option.getD_none]

theorem intern_congr (h : u.names = t.names) (name : String) (kernel : Bool) :
    (u.intern name kernel).1.names = (t.intern name kernel).1.names ∧
      (u.intern name kernel).2 = (t.intern name kernel).2 := by
  simp only [names_intern, number_intern, lookup?_congr h, size_eq, h, and_self]

/-! ## Hits -/

theorem exists_get?_of_lt (h : id < t.size) : ∃ i, t.get? id = some i :=
  ⟨_, List.getElem?_eq_getElem h⟩

theorem lt_size_intern (t : Images) (name : String) (kernel : Bool) :
    (t.intern name kernel).2 < (t.intern name kernel).1.size := by
  have hname := nameOf?_intern t name kernel
  rw [nameOf?_eq] at hname
  rw [size_eq]
  exact (List.getElem?_eq_some_iff.1 hname).1

theorem get?_modify (t : Images) (id : Nat) {f : Image → Image} (hf : ∀ i, (f i).name = i.name)
    (other : Nat) : (t.modify id f hf).get? other =
      if other = id then (t.get? id).map f else t.get? other := by
  simp only [modify, get?, List.getElem?_modify]
  by_cases h : other = id
  · subst h
    simp
  · simp [h, Ne.symm h]

theorem get?_size (t : Images) : t.get? t.size = none := List.getElem?_eq_none (Nat.le_refl _)

theorem get?_add {name : String} (kernel : Bool) (h : t.lookup? name = none) (id : Nat) :
    (t.add name kernel h).get? id =
      if id = t.size then some ⟨name, kernel, false, []⟩ else t.get? id := by
  rw [get?, add, List.getElem?_append, List.getElem?_singleton]
  by_cases hlt : id < t.size
  · rw [if_neg (Nat.ne_of_lt hlt)]
    exact if_pos hlt
  · rw [get?, List.getElem?_eq_none (Nat.le_of_not_lt hlt)]
    refine (if_neg hlt).trans (if_congr ?_ rfl rfl)
    rw [size] at hlt ⊢
    omega

theorem get?_record (t : Images) (id : Nat) (thread : Thread) (other : Nat) :
    (t.record id thread).get? other =
      if other = id then (t.get? id).map fun i => Image.record i thread else t.get? other :=
  get?_modify t id _ other

/-- What does not depend on the mark of the kernel, and what no image has that was not hit, stays
true of the same images when a name is given its number. -/
theorem exists_get?_intern {p : Image → Prop} (hkernel : ∀ i k, p { i with kernel := k } ↔ p i)
    (hblank : ∀ name kernel, ¬ p ⟨name, kernel, false, []⟩) (t : Images) (name : String)
    (kernel : Bool) (id : Nat) :
    (∃ i, (t.intern name kernel).1.get? id = some i ∧ p i) ↔ ∃ i, t.get? id = some i ∧ p i := by
  cases hfound : t.lookup? name with
  | some found =>
    rw [intern_known hfound, get?_modify]
    split
    · rename_i heq
      subst heq
      cases t.get? id <;> simp [hkernel]
    · rfl
  | none =>
    rw [intern_new hfound, get?_add]
    split
    · rename_i heq
      subst heq
      simp [get?_size, hblank]
    · rfl

/-! ## Sequences of calls -/

/-- A call on the table: a name is asked for, or the hits of an image are changed in some way. -/
inductive Call where
  | intern (name : String) (kernel : Bool)
  | touch (id : Nat) (hits : Image → Bool × List Thread)

/-- The name that a call asks for, and whether it is said to be the kernel's. -/
def Call.asked? : Call → Option (String × Bool)
  | .intern name kernel => some (name, kernel)
  | .touch _ _ => none

def perform (t : Images) : Call → Images
  | .intern name kernel => (t.intern name kernel).1
  | .touch id hits =>
    t.modify id (fun i => { i with hit := (hits i).1, threads := (hits i).2 }) fun _ => rfl

def performAll (t : Images) (calls : List Call) : Images := calls.foldl perform t

/-- The name that a call asks for, with the number that it is answered. -/
def answer (t : Images) : Call → List (String × Nat)
  | .intern name kernel => [(name, (t.intern name kernel).2)]
  | .touch _ _ => []

/-- The names that calls ask for in order, with the numbers that they are answered. -/
def answers (t : Images) (calls : List Call) : List (String × Nat) := collect perform answer t calls

variable {name : String} {kernel : Bool} {i : Image} {before : List (String × Nat)}
  {asked : List (String × Bool)}

theorem numbering_intern (h : Numbering t.names before) (name : String) (kernel : Bool) :
    Numbering (t.intern name kernel).1.names (before ++ [(name, (t.intern name kernel).2)]) := by
  rw [names_intern, number_intern]
  cases hfound : t.lookup? name with
  | some id =>
    exact h.known ((t.indexed name id).1 hfound)
  | none =>
    rw [lookup?_eq_none_iff] at hfound
    rw [Option.getD_none, size_eq]
    exact h.fresh hfound

theorem numbering_perform (h : Numbering t.names before) (c : Call) :
    Numbering (t.perform c).names (before ++ t.answer c) := by
  cases c with
  | intern name kernel => exact numbering_intern h name kernel
  | touch id hits =>
    rw [perform, names_modify, answer, List.append_nil]
    exact h

/-- Whatever calls a table has been through, its names are those that were asked for, and the numbers
that were answered are theirs. -/
theorem numbering_performAll (h : Numbering t.names before) (calls : List Call) :
    Numbering (t.performAll calls).names (before ++ t.answers calls) :=
  h.of_calls (fun c h => numbering_perform h c) calls

/-- Asking for a name takes nothing from an image but, maybe, that it is not the kernel's. -/
theorem get?_intern_of_get? (hi : t.get? id = some i) (name : String) (kernel : Bool) :
    ∃ k, (t.intern name kernel).1.get? id = some { i with kernel := k } := by
  cases hfound : t.lookup? name with
  | some found =>
    rw [intern_known hfound, get?_modify]
    split
    · rename_i heq
      rw [← heq, hi]
      exact ⟨_, rfl⟩
    · exact ⟨i.kernel, hi⟩
  | none =>
    have hne : id ≠ t.size := by
      rintro rfl
      rw [get?_size] at hi
      cases hi
    rw [intern_new hfound, get?_add, if_neg hne]
    exact ⟨i.kernel, hi⟩

/-- The names that a table was asked for are its names, each once and where it was first asked for;
and an image is the kernel's if its name was ever said to be. -/
structure Registers (t : Images) (asked : List (String × Bool)) : Prop where
  names : t.names = (asked.map Prod.fst).eraseDups
  kernel : ∀ id i, t.get? id = some i → (i.kernel = true ↔ (i.name, true) ∈ asked)

namespace Registers

theorem empty : Images.empty.Registers [] := ⟨rfl, by simp [Images.empty, get?]⟩

theorem mem_names (h : t.Registers asked) (hin : (name, kernel) ∈ asked) : name ∈ t.names := by
  rw [h.names, List.mem_eraseDups]
  exact List.mem_map_of_mem hin

theorem modify (h : t.Registers asked) (id : Nat) {f : Image → Image}
    (hf : ∀ i, (f i).name = i.name) (hkernel : ∀ i, (f i).kernel = i.kernel) :
    (t.modify id f hf).Registers asked where
  names := by
    rw [names_modify]
    exact h.names
  kernel other i hi := by
    rw [get?_modify] at hi
    split at hi
    · obtain ⟨old, hold, rfl⟩ := Option.map_eq_some_iff.1 hi
      rw [hf old, hkernel old]
      exact h.kernel id old hold
    · exact h.kernel other i hi

theorem record (h : t.Registers asked) (id : Nat) (thread : Thread) :
    (t.record id thread).Registers asked := h.modify id _ fun _ => rfl

theorem mem_concat {known : String} :
    (known, true) ∈ asked ++ [(name, kernel)] ↔
      (known, true) ∈ asked ∨ known = name ∧ kernel = true := by
  rw [List.mem_append, List.mem_singleton, Prod.mk.injEq, eq_comm (a := true)]

theorem intern (h : t.Registers asked) (name : String) (kernel : Bool) :
    (t.intern name kernel).1.Registers (asked ++ [(name, kernel)]) where
  names := by
    have hknown : (t.lookup? name).isSome = true ↔ name ∈ asked.map Prod.fst := by
      rw [Option.isSome_iff_ne_none, ne_eq, lookup?_eq_none_iff, Classical.not_not, h.names,
        List.mem_eraseDups]
    rw [List.map_append, List.map_singleton, eraseDups_concat, ← h.names, names_intern]
    simp only [hknown]
  kernel other i hi := by
    rw [mem_concat]
    cases hfound : t.lookup? name with
    | some found =>
      rw [intern_known hfound, get?_modify] at hi
      rw [lookup?_eq_some_iff] at hfound
      split at hi
      · obtain ⟨old, hold, rfl⟩ := Option.map_eq_some_iff.1 hi
        have hname : old.name = name := by
          rw [nameOf?, hold] at hfound
          exact Option.some.inj hfound
        simp only [Bool.or_eq_true, h.kernel found old hold, hname, true_and]
      · rename_i hne
        have hname : i.name ≠ name := by
          intro heq
          have hother : t.nameOf? other = some name := by rw [nameOf?, hi, Option.map_some, heq]
          rw [← lookup?_eq_some_iff] at hother hfound
          exact hne (Option.some.inj (hother.symm.trans hfound))
        simp only [hname, false_and, or_false]
        exact h.kernel other i hi
    | none =>
      rw [intern_new hfound, get?_add] at hi
      rw [lookup?_eq_none_iff] at hfound
      split at hi
      · cases hi
        have hnew : (name, true) ∉ asked := fun hin => hfound (h.mem_names hin)
        simp only [hnew, false_or, true_and]
      · have hname : i.name ≠ name := by
          rintro rfl
          exact hfound (List.mem_map.2 ⟨i, List.mem_of_getElem? hi, rfl⟩)
        simp only [hname, false_and, or_false]
        exact h.kernel other i hi

theorem perform (h : t.Registers asked) (c : Call) :
    (t.perform c).Registers (asked ++ c.asked?.toList) := by
  cases c with
  | intern name kernel => exact h.intern name kernel
  | touch id hits =>
    rw [Call.asked?, Option.toList_none, List.append_nil]
    have hname : ∀ i : Image, { i with hit := (hits i).1, threads := (hits i).2 }.name = i.name :=
      fun _ => rfl
    exact h.modify id hname fun _ => rfl

/-- Whatever calls a table has been through, it registers what it was asked. -/
theorem performAll (h : t.Registers asked) (calls : List Call) :
    (t.performAll calls).Registers (asked ++ calls.filterMap Call.asked?) := by
  induction calls generalizing t asked with
  | nil =>
    rw [List.filterMap_nil, List.append_nil]
    exact h
  | cons c rest ih =>
    have hcons : (c :: rest).filterMap Call.asked? =
        c.asked?.toList ++ rest.filterMap Call.asked? := by
      cases hc : c.asked? <;> simp [hc]
    rw [hcons, ← List.append_assoc]
    exact ih (h.perform c)

end Registers
end Images

namespace Thread

theorem ascending_insert (t : Thread) {l : List Thread} (h : l.Pairwise Before) :
    (insert t l).Pairwise Before := by
  induction l with
  | nil => simp [insert]
  | cons u rest ih =>
    rw [List.pairwise_cons] at h
    simp only [insert]
    split
    · rename_i hbefore
      refine List.pairwise_cons.2 ⟨?_, List.pairwise_cons.2 h⟩
      intro x hx
      rw [List.mem_cons] at hx
      cases hx with
      | inl heq => exact heq ▸ hbefore
      | inr hx => exact before_trans hbefore (h.1 x hx)
    · split
      · exact List.pairwise_cons.2 h
      · rename_i hnot hne
        have hbehind : u.Before t :=
          Classical.byContradiction fun hno => hne (eq_of_not_before hnot hno)
        refine List.pairwise_cons.2 ⟨?_, ih h.2⟩
        intro x hx
        rw [mem_insert] at hx
        cases hx with
        | inl heq => exact heq ▸ hbehind
        | inr hx => exact h.1 x hx

end Thread
end Unslide
