import Unslide.Index

/-!
# Unslide.Proofs.Index

Neighbours in an index. The look-ups that take the last or the first of some entries are
characterised by the order of the keys alone, so that no later proof looks at the list behind an
index.

* `below?_eq_some_iff`, `upTo?_eq_some_iff`: the entry found is the greatest of those asked for.
* `findSome?_values`: a search through the values meets them in key order.
-/

namespace Unslide
namespace Index

variable {α β : Type} {index : Index α}

theorem value_unique {key : Nat} {v w : α} (hv : (key, v) ∈ index.entries)
    (hw : (key, w) ∈ index.entries) : v = w := by
  rw [← find?_eq_some_iff] at hv hw
  rw [hv] at hw
  exact Option.some.inj hw

theorem getLast?_eq_some_iff {l : List (Nat × α)} (hl : l.Pairwise (fun a b => a.1 < b.1))
    {e : Nat × α} : l.getLast? = some e ↔ e ∈ l ∧ ∀ d ∈ l, d.1 ≤ e.1 := by
  constructor
  · intro h
    obtain ⟨before, rfl⟩ := List.getLast?_eq_some_iff.1 h
    refine ⟨by simp, ?_⟩
    intro d hd
    rw [List.mem_append, List.mem_singleton] at hd
    rcases hd with hd | rfl
    · exact Nat.le_of_lt ((List.pairwise_append.1 hl).2.2 d hd e (by simp))
    · exact Nat.le_refl _
  · rintro ⟨he, hmax⟩
    cases hlast : l.getLast? with
    | none => simp [List.getLast?_eq_none_iff.1 hlast] at he
    | some d =>
      obtain ⟨before, rfl⟩ := List.getLast?_eq_some_iff.1 hlast
      rw [List.mem_append, List.mem_singleton] at he
      rcases he with he | rfl
      · have hlt := (List.pairwise_append.1 hl).2.2 e he d (by simp)
        have hle := hmax d (by simp)
        omega
      · rfl

theorem getLast?_filter_eq_some_iff {p : Nat × α → Bool} {e : Nat × α} :
    (index.entries.filter p).getLast? = some e ↔
      (e ∈ index.entries ∧ p e = true) ∧ ∀ d ∈ index.entries, p d = true → d.1 ≤ e.1 := by
  rw [getLast?_eq_some_iff (index.ascending.filter _), List.mem_filter]
  constructor
  · rintro ⟨he, hmax⟩
    exact ⟨he, fun d hd hp => hmax d (List.mem_filter.2 ⟨hd, hp⟩)⟩
  · rintro ⟨he, hmax⟩
    refine ⟨he, fun d hd => ?_⟩
    rw [List.mem_filter] at hd
    exact hmax d hd.1 hd.2

theorem getLast?_filter_eq_none_iff {p : Nat × α → Bool} :
    (index.entries.filter p).getLast? = none ↔ ∀ d ∈ index.entries, ¬ p d = true := by
  rw [List.getLast?_eq_none_iff, List.filter_eq_nil_iff]

theorem below?_eq_some_iff {key : Nat} {e : Nat × α} :
    index.below? key = some e ↔
      (e ∈ index.entries ∧ e.1 < key) ∧ ∀ d ∈ index.entries, d.1 < key → d.1 ≤ e.1 := by
  simp only [below?, getLast?_filter_eq_some_iff, decide_eq_true_eq]

theorem below?_eq_none_iff {key : Nat} :
    index.below? key = none ↔ ∀ d ∈ index.entries, ¬ d.1 < key := by
  simp only [below?, getLast?_filter_eq_none_iff, decide_eq_true_eq]

theorem upTo?_eq_some_iff {key : Nat} {e : Nat × α} :
    index.upTo? key = some e ↔
      (e ∈ index.entries ∧ e.1 ≤ key) ∧ ∀ d ∈ index.entries, d.1 ≤ key → d.1 ≤ e.1 := by
  simp only [upTo?, getLast?_filter_eq_some_iff, decide_eq_true_eq]

theorem first?_eq_some_iff {e : Nat × α} :
    index.first? = some e ↔ e ∈ index.entries ∧ ∀ d ∈ index.entries, e.1 ≤ d.1 := by
  obtain ⟨l, hl⟩ := index
  simp only [first?]
  cases l with
  | nil => simp
  | cons d rest =>
    rw [List.pairwise_cons] at hl
    simp only [List.head?_cons, Option.some.injEq]
    constructor
    · rintro rfl
      refine ⟨by simp, ?_⟩
      intro c hc
      rcases List.mem_cons.1 hc with rfl | hc
      · exact Nat.le_refl _
      · exact Nat.le_of_lt (hl.1 c hc)
    · rintro ⟨he, hmin⟩
      rcases List.mem_cons.1 he with rfl | he
      · rfl
      · have hlt := hl.1 e he
        have hle := hmin d (by simp)
        omega

theorem first?_eq_none_iff : index.first? = none ↔ index.entries = [] := List.head?_eq_none_iff

theorem mem_within {low high : Nat} {e : Nat × α} :
    e ∈ index.within low high ↔ e ∈ index.entries ∧ low ≤ e.1 ∧ e.1 < high := by
  simp [within]

theorem mem_values {v : α} : v ∈ index.values ↔ ∃ key, (key, v) ∈ index.entries := by
  simp [values]

/-- The values are all different if each stands under one key only. -/
theorem values_nodup (h : ∀ d ∈ index.entries, ∀ e ∈ index.entries, d.2 = e.2 → d.1 = e.1) :
    index.values.Nodup := by
  rw [values, List.Nodup, List.pairwise_map]
  refine index.ascending.imp_of_mem ?_
  intro d e hd he hlt heq
  have := h d hd e he heq
  omega

theorem findSome?_values_eq_some {f : α → Option β} {b : β}
    (h : index.values.findSome? f = some b) :
    ∃ e ∈ index.entries, f e.2 = some b ∧ ∀ d ∈ index.entries, d.1 < e.1 → f d.2 = none := by
  rw [values, List.findSome?_map, List.findSome?_eq_some_iff] at h
  obtain ⟨before, e, behind, hl, he, hnone⟩ := h
  refine ⟨e, by simp [hl], he, ?_⟩
  intro d hd hlt
  have hasc := index.ascending
  rw [hl] at hd hasc
  rw [List.mem_append, List.mem_cons] at hd
  rw [List.pairwise_append, List.pairwise_cons] at hasc
  rcases hd with hd | rfl | hd
  · exact hnone d hd
  · omega
  · have := hasc.2.1.1 d hd
    omega

theorem findSome?_values_eq_none {f : α → Option β} :
    index.values.findSome? f = none ↔ ∀ e ∈ index.entries, f e.2 = none := by
  rw [values, List.findSome?_map, List.findSome?_eq_none_iff]
  rfl

end Index
end Unslide
