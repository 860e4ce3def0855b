/-!
# Unslide.Names

Names by number and numbers by name. A table of names keeps both: the names in the order in which
they were met, where the number of a name is its position, and an index that leads from a name to
its number. Each of them undoes the other (`Indexes`).

* `lookup_cons_of_ne`, `lookup_filter_of_ne`: one key of a list is changed, or taken out, and the
  others are found as before.
* `Indexes.concat`: a name that is not in the table gets the next number.
* `Indexes.lookup_eq_none_iff`, `Indexes.lookup_congr`: the index is determined by the names.
-/

namespace Unslide

section Lookup

variable {α β : Type} [DecidableEq α] {key other : α}

theorem lookup_cons_of_ne (h : other ≠ key) (value : β) (l : List (α × β)) :
    List.lookup other ((key, value) :: l) = l.lookup other := by
  simp [List.lookup_cons, beq_false_of_ne h]

theorem lookup_filter_of_ne (h : other ≠ key) (l : List (α × β)) :
    (l.filter fun e => e.1 ≠ key).lookup other = l.lookup other := by
  induction l with
  | nil => rfl
  | cons e rest ih =>
    obtain ⟨k, value⟩ := e
    by_cases hk : k = key
    · subst hk
      rw [lookup_cons_of_ne h, List.filter_cons_of_neg (by simp), ih]
    · rw [List.filter_cons_of_pos (by simpa using hk), List.lookup_cons, List.lookup_cons, ih]

end Lookup

/-- The index leads from a name to a number if and only if the name stands there. -/
def Indexes (index : List (String × Nat)) (names : List String) : Prop :=
  ∀ name id, index.lookup name = some id ↔ names[id]? = some name

namespace Indexes

variable {index : List (String × Nat)} {names : List String} {name : String}

theorem nil : Indexes [] [] := by simp [Indexes]

theorem lookup_eq_none_iff (h : Indexes index names) :
    index.lookup name = none ↔ name ∉ names := by
  rw [List.mem_iff_getElem?, Option.eq_none_iff_forall_ne_some, not_exists]
  exact forall_congr' fun id => not_congr (h name id)

theorem lookup_congr {other : List (String × Nat)} (h : Indexes index names)
    (hother : Indexes other names) (name : String) : index.lookup name = other.lookup name :=
  Option.ext fun id => (h name id).trans (hother name id).symm

theorem concat (h : Indexes index names) (hnew : index.lookup name = none) :
    Indexes ((name, names.length) :: index) (names ++ [name]) := by
  intro other id
  by_cases heq : other = name
  · subst heq
    rw [List.lookup_cons_self, Option.some.injEq]
    constructor
    · rintro rfl
      exact List.getElem?_concat_length
    · intro hin
      rw [List.getElem?_append] at hin
      split at hin
      · rw [← h other id, hnew] at hin
        cases hin
      · rw [List.getElem?_singleton] at hin
        split at hin
        · omega
        · cases hin
  · rw [lookup_cons_of_ne heq, h other id, List.getElem?_append]
    split
    · rfl
    · rename_i hout
      rw [List.getElem?_eq_none (Nat.le_of_not_lt hout), List.getElem?_singleton]
      split <;> simp [Ne.symm heq]

end Indexes
end Unslide
