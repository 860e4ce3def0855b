import Unslide.Processes
import Unslide.Proofs.Index

/-!
# Unslide.Proofs.Processes

Two walks through captures, side by side: the spaces of their processes stand in a relation, each
process to the one of the same number. A relation that holds between two new spaces holds between
the spaces that a process is given when it is first met, whatever it inherits.

* `Related.ensure`, `Related.put`: making and changing a space keeps the relation.
* `All`: the case of one walk, where the relation is a property.
-/

namespace Unslide
namespace Processes

/-- The processes have spaces under the same numbers, and these are related. -/
structure Related (R : Space → Space → Prop) (ps qs : Processes) : Prop where
  spaces : ∀ pid, Option.Rel R (ps.spaces.find? pid) (qs.spaces.find? pid)
  kernel : Option.Rel R ps.kernel qs.kernel

def All (P : Space → Prop) (ps : Processes) : Prop := ps.Related (fun s _ => P s) ps

variable {R : Space → Space → Prop} {ps qs : Processes} {s t : Space}
variable {pid parent : Nat}

@[simp] theorem page_put (ps : Processes) (pid : Nat) (s : Space) :
    (ps.put pid s).page = ps.page := by
  unfold put
  split <;> rfl

@[simp] theorem page_ensure (ps : Processes) (pid parent : Nat) :
    (ps.ensure pid parent).state.page = ps.page := by
  unfold ensure
  split
  · rfl
  · simp

theorem ensure_of_get? (h : ps.get? pid = some s) :
    ps.ensure pid parent = ⟨ps, (s, false), []⟩ := by
  simp only [ensure, h]

theorem get?_ensure (ps : Processes) (pid parent : Nat) :
    (ps.ensure pid parent).state.get? pid = some (ps.ensure pid parent).answer.1 := by
  unfold ensure
  split
  · assumption
  · exact get?_put_self _ _ _

/-- A process that has a space keeps it when it is met again. -/
theorem ensure_ensure (ps : Processes) (pid parent : Nat) :
    (ps.ensure pid parent).state.ensure pid parent =
      ⟨(ps.ensure pid parent).state, ((ps.ensure pid parent).answer.1, false), []⟩ :=
  ensure_of_get? (get?_ensure ps pid parent)

namespace Related

theorem start {a b : Nat} : Related R (.start a) (.start b) :=
  ⟨fun _ => .none, .none⟩

theorem imp {R' : Space → Space → Prop} (h : ps.Related R qs) (hR : ∀ s t, R s t → R' s t) :
    ps.Related R' qs := by
  have hlift : ∀ {a b : Option Space}, Option.Rel R a b → Option.Rel R' a b := by
    intro a b hab
    cases hab with
    | some hr => exact .some (hR _ _ hr)
    | none => exact .none
  exact ⟨fun pid => hlift (h.spaces pid), hlift h.kernel⟩

theorem get? (h : ps.Related R qs) (pid : Nat) : Option.Rel R (ps.get? pid) (qs.get? pid) := by
  unfold Processes.get?
  split
  · exact h.kernel
  · exact h.spaces pid

theorem put (h : ps.Related R qs) (hst : R s t) (pid : Nat) :
    (ps.put pid s).Related R (qs.put pid t) := by
  unfold Processes.put
  split
  · exact ⟨h.spaces, .some hst⟩
  · refine ⟨fun other => ?_, h.kernel⟩
    by_cases ho : other = pid
    · subst ho
      rw [Index.find?_insert_self, Index.find?_insert_self]
      exact .some hst
    · rw [Index.find?_insert_of_ne _ _ ho, Index.find?_insert_of_ne _ _ ho]
      exact h.spaces other

theorem seed (h : ps.Related R qs) (hnew : R (.aligned ps.page) (.aligned qs.page))
    (pid parent : Nat) : R (ps.seed pid parent).1 (qs.seed pid parent).1 := by
  have hparent := h.spaces parent
  have hkernel := h.kernel
  unfold Processes.seed
  split
  · exact hnew
  · generalize ps.spaces.find? parent = a at hparent
    generalize qs.spaces.find? parent = b at hparent
    cases hparent with
    | some hr => exact hr
    | none =>
      generalize ps.kernel = a at hkernel
      generalize qs.kernel = b at hkernel
      cases hkernel with
      | some hr => exact hr
      | none => exact hnew

theorem ensure (h : ps.Related R qs) (hnew : R (.aligned ps.page) (.aligned qs.page))
    (pid parent : Nat) :
    R (ps.ensure pid parent).answer.1 (qs.ensure pid parent).answer.1 ∧
      (ps.ensure pid parent).state.Related R (qs.ensure pid parent).state := by
  have hseed := h.seed hnew pid parent
  have hget := h.get? pid
  unfold Processes.ensure
  generalize ps.get? pid = a at hget
  generalize qs.get? pid = b at hget
  cases hget with
  | some hr => exact ⟨hr, h⟩
  | none => exact ⟨hseed, h.put hseed pid⟩

end Related

theorem All.of_get? {P : Space → Prop} (h : ps.All P) (hs : ps.get? pid = some s) : P s := by
  have hrel := h.get? pid
  rw [hs] at hrel
  cases hrel with
  | some hP => exact hP

end Processes
end Unslide
