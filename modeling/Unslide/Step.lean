import Unslide.Note

/-!
# Unslide.Step

What an operation on a state leaves behind: the new state, its answer, and the notes taken on the
way, oldest first.
-/

namespace Unslide

/-- The outcome of one operation. -/
structure Step (σ α : Type) where
  state : σ
  answer : α
  notes : List Note := []

namespace Step

variable {σ α β : Type}

/-- Put earlier notes in front. -/
def after (notes : List Note) (s : Step σ α) : Step σ α := { s with notes := notes ++ s.notes }

def mapAnswer (f : α → β) (s : Step σ α) : Step σ β := ⟨s.state, f s.answer, s.notes⟩

@[simp] theorem after_state (notes : List Note) (s : Step σ α) : (s.after notes).state = s.state :=
  rfl

@[simp] theorem after_answer (notes : List Note) (s : Step σ α) :
    (s.after notes).answer = s.answer := rfl

@[simp] theorem mapAnswer_state (f : α → β) (s : Step σ α) : (s.mapAnswer f).state = s.state := rfl

@[simp] theorem mapAnswer_answer (f : α → β) (s : Step σ α) :
    (s.mapAnswer f).answer = f s.answer := rfl

end Step
end Unslide
