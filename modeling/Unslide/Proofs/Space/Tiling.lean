import Mathlib.Data.Nat.Init
import Mathlib.Data.Set.Insert
import Unslide.Region

/-!
# Unslide.Proofs.Space.Tiling

How regions fill the synthetic space. In a `Tiled` set of regions a region, its spare bytes and the
next region follow each other without a hole, and the last spare bytes end at the top. Only the
bytes in front of the first region belong to nobody.

* `exchange`: regions that fill an interval take the place of the regions in it.
* `insert_first`, `insert_behind`: a new region goes in front of the others, or into the spare
  bytes of one of them.
* `remove_first`, `remove_behind`: a region leaves its bytes to nobody, or to the one before it.
* `free_or_spare`: every byte is in front of all regions, in a region, or spare.
-/

namespace Unslide

/-- Where the spare bytes of a region end. -/
def Region.reach (r : Region) : Nat := r.placeEnd + r.spare

/-- Regions and their spare bytes follow each other up to the top. -/
structure Tiled (L : Set Region) : Prop where
  pos : ∀ r ∈ L, 0 < r.size
  inj : ∀ r ∈ L, ∀ q ∈ L, r.place = q.place → r = q
  next : ∀ r ∈ L, ∀ q ∈ L, r.place < q.place → r.reach ≤ q.place
  reach_le : ∀ r ∈ L, r.reach ≤ top
  closed : ∀ r ∈ L, r.reach = top ∨ ∃ q ∈ L, q.place = r.reach

/-- Regions and their spare bytes follow each other from `lo` to `hi`. -/
structure Fills (N : Set Region) (lo hi : Nat) : Prop where
  pos : ∀ r ∈ N, 0 < r.size
  inj : ∀ r ∈ N, ∀ q ∈ N, r.place = q.place → r = q
  next : ∀ r ∈ N, ∀ q ∈ N, r.place < q.place → r.reach ≤ q.place
  inside : ∀ r ∈ N, lo ≤ r.place ∧ r.reach ≤ hi
  closed : ∀ r ∈ N, r.reach = hi ∨ ∃ q ∈ N, q.place = r.reach
  first : ∃ r ∈ N, r.place = lo

theorem place_lt_reach_of_pos {r : Region} (hpos : 0 < r.size) : r.place < r.reach := by
  simp only [Region.reach, Region.placeEnd]
  omega

namespace Fills

variable {r p : Region}

theorem single (hpos : 0 < r.size) : Fills {r} r.place r.reach := by
  have hlt := place_lt_reach_of_pos hpos
  constructor
  · rintro q rfl
    exact hpos
  · rintro q rfl c rfl _
    rfl
  · rintro q rfl c rfl hqc
    omega
  · rintro q rfl
    exact ⟨Nat.le_refl _, Nat.le_refl _⟩
  · rintro q rfl
    exact .inl rfl
  · exact ⟨r, rfl, rfl⟩

theorem pair (hp : 0 < p.size) (hr : 0 < r.size) (heq : p.reach = r.place) :
    Fills {r, p} p.place r.reach := by
  have hpp := place_lt_reach_of_pos hp
  have hrr := place_lt_reach_of_pos hr
  constructor
  · rintro q (rfl | rfl)
    · exact hr
    · exact hp
  · rintro q (rfl | rfl) c (rfl | rfl) hqc
    · rfl
    · omega
    · omega
    · rfl
  · rintro q (rfl | rfl) c (rfl | rfl) hqc <;> omega
  · rintro q (rfl | rfl) <;> omega
  · rintro q (rfl | rfl)
    · exact .inl rfl
    · exact .inr ⟨r, .inl rfl, heq.symm⟩
  · exact ⟨p, .inr rfl, rfl⟩

end Fills

namespace Tiled

variable {L : Set Region} {r p : Region}

theorem placeEnd_le_reach (r : Region) : r.placeEnd ≤ r.reach := Nat.le_add_right _ _

theorem place_lt_reach (h : Tiled L) (hr : r ∈ L) : r.place < r.reach :=
  place_lt_reach_of_pos (h.pos r hr)

theorem empty : Tiled ∅ := by
  constructor <;> simp

/-- Regions that fill an interval take the place of all regions in it. -/
theorem exchange (h : Tiled L) {M N : Set Region} {lo hi : Nat} (hM : ∀ q ∈ M, q ∈ L)
    (hside : ∀ q ∈ M, q.reach ≤ lo ∨ hi ≤ q.place)
    (hrest : ∀ q ∈ L, q ∈ M ∨ lo ≤ q.place ∧ q.place < hi)
    (hend : hi = top ∨ ∃ q ∈ M, q.place = hi) (hN : Fills N lo hi) : Tiled (M ∪ N) := by
  have hhi : hi ≤ top := by
    rcases hend with rfl | ⟨q, hq, rfl⟩
    · exact Nat.le_refl _
    · have := h.place_lt_reach (hM q hq)
      have := h.reach_le q (hM q hq)
      omega
  have hlt : ∀ q ∈ N, q.place < q.reach := fun q hq => place_lt_reach_of_pos (hN.pos q hq)
  constructor
  · rintro q (hq | hq)
    · exact h.pos q (hM q hq)
    · exact hN.pos q hq
  · rintro q (hq | hq) c (hc | hc) heq
    · exact h.inj q (hM q hq) c (hM c hc) heq
    · have := hside q hq
      have := h.place_lt_reach (hM q hq)
      have := hN.inside c hc
      have := hlt c hc
      omega
    · have := hside c hc
      have := h.place_lt_reach (hM c hc)
      have := hN.inside q hq
      have := hlt q hq
      omega
    · exact hN.inj q hq c hc heq
  · rintro q (hq | hq) c (hc | hc) hqc
    · exact h.next q (hM q hq) c (hM c hc) hqc
    · have := hside q hq
      have := hN.inside c hc
      have := hlt c hc
      omega
    · have := hside c hc
      have := h.place_lt_reach (hM c hc)
      have := hN.inside q hq
      omega
    · exact hN.next q hq c hc hqc
  · rintro q (hq | hq)
    · exact h.reach_le q (hM q hq)
    · exact Nat.le_trans (hN.inside q hq).2 hhi
  · rintro q (hq | hq)
    · rcases h.closed q (hM q hq) with htop | ⟨c, hc, hcq⟩
      · exact .inl htop
      · rcases hrest c hc with hcM | hin
        · exact .inr ⟨c, .inl hcM, hcq⟩
        · -- what follows `q` is gone, so that `q` ends where the interval starts
          obtain ⟨f, hf, hplace⟩ := hN.first
          have := hside q hq
          have := h.place_lt_reach (hM q hq)
          exact .inr ⟨f, .inr hf, by omega⟩
    · rcases hN.closed q hq with hreach | ⟨c, hc, hcq⟩
      · rcases hend with htop | ⟨c, hc, hplace⟩
        · exact .inl (hreach.trans htop)
        · exact .inr ⟨c, .inl hc, hplace.trans hreach.symm⟩
      · exact .inr ⟨c, .inr hc, hcq⟩

theorem singleton (hpos : 0 < r.size) (hreach : r.reach = top) : Tiled {r} := by
  have h := empty.exchange (M := ∅) (fun q hq => hq) (fun q hq => hq.elim) (fun q hq => hq.elim)
    (.inl hreach) (.single hpos)
  rwa [Set.empty_union] at h

/-- Another region lies on the one side of `p` or beyond its spare bytes. -/
theorem beside (h : Tiled L) (hp : p ∈ L) {q : Region} (hq : q ∈ L) (hne : q ≠ p) :
    q.reach ≤ p.place ∨ p.reach ≤ q.place := by
  rcases Nat.lt_trichotomy q.place p.place with hlt | heq | hlt
  · exact .inl (h.next q hq p hp hlt)
  · exact absurd (h.inj q hq p hp heq) hne
  · exact .inr (h.next p hp q hq hlt)

/-- A region goes in front of all others, and its spare bytes end at the first of them. -/
theorem insert_first (h : Tiled L) (hpos : 0 < r.size) (hp : p ∈ L) (hreach : r.reach = p.place)
    (hfirst : ∀ q ∈ L, p.place ≤ q.place) : Tiled (insert r L) := by
  rw [← Set.union_singleton]
  refine h.exchange (fun q hq => hq) ?_ (fun q hq => .inl hq) ?_ (.single hpos)
  · intro q hq
    right
    rw [hreach]
    exact hfirst q hq
  · exact .inr ⟨p, hp, hreach.symm⟩

/-- A region goes into the spare bytes of `p`, which keeps those in front of it. -/
theorem insert_behind (h : Tiled L) (hpos : 0 < r.size) (hp : p ∈ L)
    (hplace : p.placeEnd ≤ r.place) (hreach : r.reach = p.reach) :
    Tiled (insert r (insert { p with spare := r.place - p.placeEnd } (L \ {p}))) := by
  have hcut : ({ p with spare := r.place - p.placeEnd } : Region).reach = r.place := by
    simp only [Region.reach, Region.placeEnd] at hplace ⊢
    omega
  rw [← Set.union_singleton (s := L \ {p}), ← Set.union_insert]
  refine h.exchange (fun q hq => hq.1) ?_ ?_ ?_ (.pair (h.pos p hp) hpos hcut)
  · rintro q ⟨hq, hne⟩
    rw [hreach]
    exact h.beside hp hq hne
  · intro q hq
    by_cases heq : q = p
    · right
      rw [heq, hreach]
      exact ⟨Nat.le_refl _, h.place_lt_reach hp⟩
    · exact .inl ⟨hq, heq⟩
  · rw [hreach]
    rcases h.closed p hp with htop | ⟨c, hc, hcp⟩
    · exact .inl htop
    · have hne : c ≠ p := by
        rintro rfl
        have := h.place_lt_reach hc
        omega
      exact .inr ⟨c, ⟨hc, hne⟩, hcp⟩

/-- The first region leaves its bytes to nobody. -/
theorem remove_first (h : Tiled L) (hr : r ∈ L) (hfirst : ∀ q ∈ L, ¬ q.place < r.place) :
    Tiled (L \ {r}) where
  pos q hq := h.pos q hq.1
  inj q hq c hc := h.inj q hq.1 c hc.1
  next q hq c hc := h.next q hq.1 c hc.1
  reach_le q hq := h.reach_le q hq.1
  closed q hq := by
    rcases h.closed q hq.1 with htop | ⟨c, hc, hcq⟩
    · exact .inl htop
    · have hne : c ≠ r := by
        rintro rfl
        have := h.place_lt_reach hq.1
        have := hfirst q hq.1
        omega
      exact .inr ⟨c, ⟨hc, hne⟩, hcq⟩

/-- A region that others precede starts where the spare bytes of the nearest of them end. -/
theorem reach_of_before (h : Tiled L) (hr : r ∈ L) (hp : p ∈ L) (hlt : p.place < r.place)
    (hnear : ∀ q ∈ L, q.place < r.place → q.place ≤ p.place) : p.reach = r.place := by
  have hle := h.next p hp r hr hlt
  rcases h.closed p hp with htop | ⟨q, hq, hqp⟩
  · have := h.place_lt_reach hr
    have := h.reach_le r hr
    omega
  · have := h.place_lt_reach hp
    by_contra hne
    have := hnear q hq (by omega)
    omega

/-- A region leaves its bytes to the one before it. -/
theorem remove_behind (h : Tiled L) (hr : r ∈ L) (hp : p ∈ L) (hlt : p.place < r.place)
    (hnear : ∀ q ∈ L, q.place < r.place → q.place ≤ p.place) :
    Tiled (insert { p with spare := p.spare + (r.size + r.spare) } ((L \ {r}) \ {p})) := by
  have hpr := h.reach_of_before hr hp hlt hnear
  have hjoin : ({ p with spare := p.spare + (r.size + r.spare) } : Region).reach = r.reach := by
    simp only [Region.reach, Region.placeEnd] at hpr ⊢
    omega
  have hrr := h.place_lt_reach hr
  rw [← Set.union_singleton]
  refine h.exchange (fun q hq => hq.1.1) ?_ ?_ ?_ (.single (h.pos p hp))
  · rintro q ⟨⟨hq, hqr⟩, hqp⟩
    rw [hjoin]
    have := h.beside hr hq hqr
    have := h.place_lt_reach hq
    rcases h.beside hp hq hqp with hbefore | hbehind
    · exact .inl hbefore
    · right
      omega
  · intro q hq
    rw [hjoin]
    by_cases hqr : q = r
    · right
      rw [hqr]
      exact ⟨Nat.le_of_lt hlt, hrr⟩
    · by_cases hqp : q = p
      · right
        rw [hqp]
        exact ⟨Nat.le_refl _, by omega⟩
      · exact .inl ⟨⟨hq, hqr⟩, hqp⟩
  · rw [hjoin]
    rcases h.closed r hr with htop | ⟨c, hc, hcr⟩
    · exact .inl htop
    · refine .inr ⟨c, ⟨⟨hc, ?_⟩, ?_⟩, hcr⟩
      · rintro rfl
        omega
      · rintro rfl
        omega

/-- Bytes that no region takes lie in front of all regions, or in the spare bytes of one. -/
theorem free_or_spare (h : Tiled L) {m size : Nat} (htop : m + size ≤ top)
    (hfree : ∀ q ∈ L, m + size ≤ q.place ∨ q.placeEnd ≤ m) :
    (∀ q ∈ L, m + size ≤ q.place) ∨ ∃ p ∈ L, p.placeEnd ≤ m ∧ m + size ≤ p.reach := by
  by_cases hall : ∀ q ∈ L, m + size ≤ q.place
  · exact .inl hall
  · -- from a region in front of the bytes, follow the next ones up to the last in front of them
    right
    have hwalk : ∀ n, ∀ q ∈ L, q.placeEnd ≤ m → m - q.place = n →
        ∃ p ∈ L, p.placeEnd ≤ m ∧ m + size ≤ p.reach := by
      intro n
      induction n using Nat.strong_induction_on with
      | _ n ih =>
        intro q hq hend hn
        by_cases hfits : m + size ≤ q.reach
        · exact ⟨q, hq, hend, hfits⟩
        · have hlt := h.place_lt_reach hq
          rcases h.closed q hq with heq | ⟨c, hc, hplace⟩
          · omega
          · rcases hfree c hc with hbefore | hbehind
            · omega
            · have hcpos := h.pos c hc
              simp only [Region.placeEnd] at hbehind hend
              exact ih (m - c.place) (by omega) c hc (by simpa [Region.placeEnd] using hbehind) rfl
    simp only [not_forall] at hall
    obtain ⟨q, hq, hnot⟩ := hall
    exact hwalk _ q hq ((hfree q hq).resolve_left hnot) rfl

end Tiled
end Unslide
