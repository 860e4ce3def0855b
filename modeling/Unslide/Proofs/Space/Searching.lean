import Unslide.Proofs.Space.Faultless

/-!
# Unslide.Proofs.Space.Searching

The search for the regions that an interval meets. It looks at one region that starts below the
interval, the nearest, and takes the others from the index by their start alone. No other region has
to be looked at, because live regions do not meet and none is empty; so the search comes to what a
look at every region comes to (`scan`).

* `scan_ascending`, `touching_ascending`: both lists are in real order.
* `touching_eq_scan`: they are the same list.
* `finds_of_reachable`: what is found, in every space that a process can have.
-/

namespace Unslide
namespace Space

/-- The slots of all regions that meet the interval of `r`, by a look at each region in real
order. -/
def scan (s : Space) (r : Region) : List Nat :=
  s.byStart.values.filter fun slot => (s.regionAt? slot).any fun p => p.Meets r

/-- Both slots are live, and the region in the one starts below that in the other. -/
def Earlier (s : Space) (i j : Nat) : Prop :=
  ∃ p q, s.regionAt? i = some p ∧ s.regionAt? j = some q ∧ p.start < q.start

variable {s : Space} {slot : Nat} {r p : Region}

theorem not_earlier_of_earlier {i j : Nat} (hij : s.Earlier i j) : ¬ s.Earlier j i := by
  intro hji
  obtain ⟨p, q, hp, hq, hlt⟩ := hij
  obtain ⟨q', p', hq', hp', hlt'⟩ := hji
  rw [hp] at hp'
  rw [hq] at hq'
  cases hp'
  cases hq'
  omega

theorem earlier_of_entries (h : s.Coherent) {d e : Nat × Nat} (hd : d ∈ s.byStart.entries)
    (he : e ∈ s.byStart.entries) (hlt : d.1 < e.1) : s.Earlier d.2 e.2 := by
  obtain ⟨p, hp, hstart⟩ := (h.byStart d.1 d.2).1 hd
  obtain ⟨q, hq, hstart'⟩ := (h.byStart e.1 e.2).1 he
  exact ⟨p, q, hp, hq, by omega⟩

theorem values_ascending (h : s.Coherent) : s.byStart.values.Pairwise s.Earlier := by
  rw [Index.values, List.pairwise_map]
  exact s.byStart.ascending.imp_of_mem fun hd he hlt => earlier_of_entries h hd he hlt

theorem scan_ascending (h : s.Coherent) (r : Region) : (s.scan r).Pairwise s.Earlier :=
  (values_ascending h).filter _

theorem mem_scan (h : s.Coherent) :
    slot ∈ s.scan r ↔ ∃ p, s.regionAt? slot = some p ∧ p.Meets r := by
  simp only [scan, List.mem_filter, Option.any_eq_true, decide_eq_true_eq]
  constructor
  · intro hfound
    exact hfound.2
  · intro ⟨p, hp, hmeets⟩
    have hin := (h.byStart p.start slot).2 ⟨p, hp, rfl⟩
    exact ⟨Index.mem_values.2 ⟨p.start, hin⟩, p, hp, hmeets⟩

/-- The one slot from below comes before those from the index, whose regions start later. -/
theorem touching_ascending (h : s.Coherent) (r : Region) : (s.touching r).Pairwise s.Earlier := by
  have hwithin : ((s.byStart.within r.start r.stop).map (·.2)).Pairwise s.Earlier :=
    (values_ascending h).sublist (List.filter_sublist.map _)
  simp only [touching]
  split
  · exact hwithin
  · rename_i k i hbelow
    split
    · exact hwithin
    · split
      · rw [List.singleton_append, List.pairwise_cons]
        refine ⟨?_, hwithin⟩
        intro j hj
        obtain ⟨e, he, rfl⟩ := List.mem_map.1 hj
        rw [Index.mem_within] at he
        obtain ⟨⟨hin, hlt⟩, -⟩ := Index.below?_eq_some_iff.1 hbelow
        exact earlier_of_entries h hin he.1 (Nat.lt_of_lt_of_le hlt he.2.1)
      · exact hwithin

theorem touching_eq_scan (h : s.Sound) (r : Region) : s.touching r = s.scan r := by
  have hnodup : (s.scan r).Nodup := h.coherent.byStart.values_nodup.filter _
  have hperm : (s.touching r).Perm (s.scan r) := by
    rw [List.perm_ext_iff_of_nodup (touching_nodup h) hnodup]
    intro i
    rw [mem_touching h, mem_scan h.coherent]
  refine List.Perm.eq_of_pairwise ?_ (touching_ascending h.coherent r)
    (scan_ascending h.coherent r) hperm
  intro i j _ _ hij hji
  exact absurd hji (not_earlier_of_earlier hij)

/-- What the search for the regions that meet the interval of `r` comes to. -/
structure Finds (s : Space) (r : Region) : Prop where
  /-- The slots of the regions that meet the interval, and no others. -/
  found : ∀ slot, slot ∈ s.touching r ↔ ∃ p, s.regionAt? slot = some p ∧ p.Meets r
  once : (s.touching r).Nodup
  ascending : (s.touching r).Pairwise s.Earlier
  /-- All of this is what a look at every region comes to. -/
  scanned : s.touching r = s.scan r
  /-- A region that covers the interval is the only one that is found. -/
  alone : ∀ slot p, s.regionAt? slot = some p → p.Covers r → s.touching r = [slot]
  /-- On the machine the search comes to the same, with no fault. -/
  computed : Machine.touching s r = .ok (s.touching r)

theorem meets_of_covers (hpos : 0 < r.size) (hcov : p.Covers r) : p.Meets r := by
  obtain ⟨hstart, hstop⟩ := hcov
  simp only [Region.Meets, Region.stop] at hstop ⊢
  omega

/-- **The search for collisions agrees with a scan.** In every space that a process can have, the
regions that an interval meets are found, each of them once and in real order, and no other; and a
region that covers the interval is found alone. -/
theorem finds_of_reachable (h : s.Reachable) (hpos : 0 < r.size) (htop : r.stop ≤ top) :
    s.Finds r := by
  have hs := sound_of_reachable h
  refine ⟨fun _ => mem_touching hs, touching_nodup hs, touching_ascending hs.coherent r,
    touching_eq_scan hs r, ?alone, Machine.touching_eq hs htop⟩
  case alone =>
    intro slot p hp hcov
    exact touching_of_covers hs hp hcov (meets_of_covers hpos hcov)

/-- Of five regions, the interval reaches into the one below it, has the start of another one and
ends where a third one starts. The slots are not in real order, since one of them was vacated and
used again. -/
theorem finds_between_touching_ends :
    let s := (aligned 4096).performAll [.reserve ⟨0x30000, 0x1000, 1, 0⟩ true,
      .reserve ⟨0x12000, 0x1000, 2, 0⟩ true, .reserve ⟨0x11000, 0x1000, 3, 0⟩ true,
      .reserve ⟨0x2f000, 0x2000, 4, 0⟩ true, .reserve ⟨0x10000, 0x1000, 5, 0⟩ true,
      .reserve ⟨0x13000, 0x1000, 6, 0⟩ true]
    let r : Region := ⟨0x11800, 0x1800, 0, 0, 0, 0⟩
    s.Reachable ∧ s.Finds r ∧ s.touching r = [2, 1] ∧
      s.Finds ⟨0x11000, 0x1000, 0, 0, 0, 0⟩ ∧ s.touching ⟨0x11000, 0x1000, 0, 0, 0, 0⟩ = [2] := by
  intro s r
  have hs : s.Reachable := reachable_performAll (.aligned 4096) _
  have hfinds := finds_of_reachable hs (r := r) (by decide) (by decide)
  have hcovered : s.Finds ⟨0x11000, 0x1000, 0, 0, 0, 0⟩ :=
    finds_of_reachable hs (by decide) (by decide)
  exact ⟨hs, hfinds, by decide, hcovered, hcovered.alone 2 ⟨0x11000, 0x1000, 0x2000, 3, 0, 0⟩
    (by decide) (by decide)⟩

end Space
end Unslide
