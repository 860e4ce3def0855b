/-!
# Unslide.Index

Values kept under natural-number keys, in ascending key order. The order is part of the type, so
each key stands in an index at most once, and the neighbour of a key is the last entry below it.

* `find?_insert_self`, `find?_insert_of_ne`: an index read as a partial function.
* `mem_insert`, `mem_erase`: an index read as a set of entries.
-/

namespace Unslide

/-- Entries in ascending key order. -/
structure Index (α : Type) where
  entries : List (Nat × α)
  ascending : entries.Pairwise (fun a b => a.1 < b.1)

namespace Index

variable {α : Type}

def empty : Index α := ⟨[], .nil⟩

/-- Put `value` under `key` into an ascending list, replacing what stood there. -/
def putEntry (key : Nat) (value : α) : List (Nat × α) → List (Nat × α)
  | [] => [(key, value)]
  | e :: rest =>
    if key < e.1 then (key, value) :: e :: rest
    else if key = e.1 then (key, value) :: rest
    else e :: putEntry key value rest

theorem mem_putEntry {key : Nat} {value : α} {e : Nat × α} {l : List (Nat × α)}
    (h : e ∈ putEntry key value l) : e = (key, value) ∨ e ∈ l := by
  induction l with
  | nil => simpa [putEntry] using h
  | cons d rest ih =>
    simp only [putEntry] at h
    split at h
    · simpa using h
    · split at h
      · rcases List.mem_cons.1 h with h | h
        · exact .inl h
        · exact .inr (List.mem_cons_of_mem _ h)
      · rcases List.mem_cons.1 h with h | h
        · exact .inr (h ▸ List.mem_cons_self)
        · rcases ih h with h | h
          · exact .inl h
          · exact .inr (List.mem_cons_of_mem _ h)

theorem ascending_putEntry (key : Nat) (value : α) {l : List (Nat × α)}
    (h : l.Pairwise (fun a b => a.1 < b.1)) :
    (putEntry key value l).Pairwise (fun a b => a.1 < b.1) := by
  induction l with
  | nil => simp [putEntry]
  | cons e rest ih =>
    rw [List.pairwise_cons] at h
    simp only [putEntry]
    split
    · rename_i hlt
      refine List.pairwise_cons.2 ⟨?_, List.pairwise_cons.2 h⟩
      intro d hd
      rcases List.mem_cons.1 hd with rfl | hd
      · exact hlt
      · exact Nat.lt_trans hlt (h.1 d hd)
    · split
      · rename_i heq
        refine List.pairwise_cons.2 ⟨?_, h.2⟩
        intro d hd
        simpa [heq] using h.1 d hd
      · rename_i hlt hne
        refine List.pairwise_cons.2 ⟨?_, ih h.2⟩
        intro d hd
        rcases mem_putEntry hd with rfl | hd
        · exact Nat.lt_of_le_of_ne (Nat.le_of_not_lt hlt) (Ne.symm hne)
        · exact h.1 d hd

def insert (index : Index α) (key : Nat) (value : α) : Index α :=
  ⟨putEntry key value index.entries, ascending_putEntry key value index.ascending⟩

def erase (index : Index α) (key : Nat) : Index α :=
  ⟨index.entries.filter (fun e => e.1 ≠ key), index.ascending.filter _⟩

def find? (index : Index α) (key : Nat) : Option α := index.entries.lookup key

/-- The entry with the greatest key below `key`. -/
def below? (index : Index α) (key : Nat) : Option (Nat × α) :=
  (index.entries.filter (fun e => e.1 < key)).getLast?

/-- The entry with the greatest key not above `key`. -/
def upTo? (index : Index α) (key : Nat) : Option (Nat × α) :=
  (index.entries.filter (fun e => e.1 ≤ key)).getLast?

/-- The entries with keys in `[low, high)`. -/
def within (index : Index α) (low high : Nat) : List (Nat × α) :=
  index.entries.filter (fun e => low ≤ e.1 ∧ e.1 < high)

def first? (index : Index α) : Option (Nat × α) := index.entries.head?

def last? (index : Index α) : Option (Nat × α) := index.entries.getLast?

def values (index : Index α) : List α := index.entries.map (·.2)

def size (index : Index α) : Nat := index.entries.length

def isEmpty (index : Index α) : Bool := index.entries.isEmpty

theorem mem_insert {index : Index α} {key : Nat} {value : α} {e : Nat × α} :
    e ∈ (index.insert key value).entries ↔ e = (key, value) ∨ (e ∈ index.entries ∧ e.1 ≠ key) := by
  obtain ⟨l, hl⟩ := index
  simp only [insert]
  induction l with
  | nil => simp [putEntry]
  | cons d rest ih =>
    rw [List.pairwise_cons] at hl
    simp only [putEntry]
    split
    · rename_i hlt
      have hd : ∀ x ∈ d :: rest, x.1 ≠ key := by
        intro x hx
        rcases List.mem_cons.1 hx with rfl | hx
        · exact Nat.ne_of_gt hlt
        · exact Nat.ne_of_gt (Nat.lt_trans hlt (hl.1 x hx))
      rw [List.mem_cons]
      exact or_congr_right ⟨fun h => ⟨h, hd e h⟩, fun h => h.1⟩
    · split
      · rename_i heq
        have hd : ∀ x ∈ rest, x.1 ≠ key := fun x hx =>
          Nat.ne_of_gt (heq ▸ hl.1 x hx)
        rw [List.mem_cons, List.mem_cons]
        refine or_congr_right ⟨fun h => ⟨.inr h, hd e h⟩, fun h => ?_⟩
        rcases h.1 with h' | h'
        · exact absurd (h' ▸ heq.symm) h.2
        · exact h'
      · rename_i hlt hne
        rw [List.mem_cons, ih hl.2, List.mem_cons]
        constructor
        · rintro (h | h | h)
          · exact .inr ⟨.inl h, h ▸ Ne.symm hne⟩
          · exact .inl h
          · exact .inr ⟨.inr h.1, h.2⟩
        · rintro (h | ⟨h | h, h'⟩)
          · exact .inr (.inl h)
          · exact .inl h
          · exact .inr (.inr ⟨h, h'⟩)

theorem mem_erase {index : Index α} {key : Nat} {e : Nat × α} :
    e ∈ (index.erase key).entries ↔ e ∈ index.entries ∧ e.1 ≠ key := by
  simp [erase]

theorem mem_of_find? {index : Index α} {key : Nat} {value : α} (h : index.find? key = some value) :
    (key, value) ∈ index.entries := by
  obtain ⟨l, hl⟩ := index
  simp only [find?] at h ⊢
  clear hl
  induction l with
  | nil => simp at h
  | cons d rest ih =>
    obtain ⟨k, v⟩ := d
    rw [List.lookup_cons] at h
    split at h
    · rename_i heq
      cases h
      simp_all
    · exact List.mem_cons_of_mem _ (ih h)

theorem find?_eq_some_iff {index : Index α} {key : Nat} {value : α} :
    index.find? key = some value ↔ (key, value) ∈ index.entries := by
  refine ⟨mem_of_find?, ?_⟩
  obtain ⟨l, hl⟩ := index
  simp only [find?]
  intro h
  induction l with
  | nil => simp at h
  | cons d rest ih =>
    obtain ⟨k, v⟩ := d
    rw [List.pairwise_cons] at hl
    rw [List.lookup_cons]
    rcases List.mem_cons.1 h with heq | h
    · cases heq
      simp
    · have : k < key := hl.1 _ h
      have hne : (key == k) = false := by simpa using Nat.ne_of_gt this
      rw [hne]
      exact ih hl.2 h

theorem find?_insert_self (index : Index α) (key : Nat) (value : α) :
    (index.insert key value).find? key = some value :=
  find?_eq_some_iff.2 (mem_insert.2 (.inl rfl))

theorem find?_insert_of_ne (index : Index α) {key other : Nat} (value : α) (h : other ≠ key) :
    (index.insert key value).find? other = index.find? other := by
  apply Option.ext
  intro v
  simp [find?_eq_some_iff, mem_insert, h]

end Index
end Unslide
