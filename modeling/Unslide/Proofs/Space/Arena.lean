import Mathlib.Data.Set.Insert
import Unslide.Proofs.Index
import Unslide.Space.Reservation

/-!
# Unslide.Proofs.Space.Arena

The slots of a space and what names them. `Coherent` says that both indexes name the live slots and
`vacant` the others. What a space holds is seen in two ways: `live` is the set of its regions, and
`blocks` the set of its regions without their spare bytes, which is all that a look-up can tell.

* `coherent_store`, `coherent_vacate`, `coherent_adjust`: the three changes of a slot keep the
  indexes and the list of vacant slots in step.
* `blocks_store`, `blocks_vacate`, `blocks_adjust`: what they do to the blocks.
-/

namespace Unslide

/-- The region without its spare bytes. -/
def Region.bare (r : Region) : Region := { r with spare := 0 }

@[simp] theorem Region.bare_start (r : Region) : r.bare.start = r.start := rfl
@[simp] theorem Region.bare_size (r : Region) : r.bare.size = r.size := rfl
@[simp] theorem Region.bare_id (r : Region) : r.bare.id = r.id := rfl
@[simp] theorem Region.bare_place (r : Region) : r.bare.place = r.place := rfl

namespace Space

def live (s : Space) : Set Region := {r | ∃ slot, s.regionAt? slot = some r}

/-- The live regions without their spare bytes. -/
def blocks (s : Space) : Set Region := {b | ∃ slot r, s.regionAt? slot = some r ∧ r.bare = b}

def nextSlot (s : Space) : Nat := s.vacant.headD s.slots.length

/-- The index names the slots of the live regions, each under the key of its region, and no other
slot. -/
def Names (s : Space) (key : Region → Nat) (index : Index Nat) : Prop :=
  ∀ k slot, (k, slot) ∈ index.entries ↔ ∃ r, s.regionAt? slot = some r ∧ key r = k

/-- The indexes and the list of vacant slots agree with the slots. -/
structure Coherent (s : Space) : Prop where
  byStart : s.Names Region.start s.byStart
  byPlace : s.Names Region.place s.byPlace
  vacant_nodup : s.vacant.Nodup
  mem_vacant : ∀ slot, slot ∈ s.vacant ↔ s.slots[slot]? = some none

variable {s : Space} {slot : Nat} {r : Region}

theorem regionAt?_eq_some_iff : s.regionAt? slot = some r ↔ s.slots[slot]? = some (some r) := by
  simp only [regionAt?]
  cases s.slots[slot]? with
  | none => simp
  | some o => cases o <;> simp

theorem mem_live : r ∈ s.live ↔ ∃ slot, s.regionAt? slot = some r := Iff.rfl

theorem mem_blocks {b : Region} :
    b ∈ s.blocks ↔ ∃ slot r, s.regionAt? slot = some r ∧ r.bare = b := Iff.rfl

theorem mem_blocks_of_regionAt? (h : s.regionAt? slot = some r) : r.bare ∈ s.blocks :=
  ⟨slot, r, h, rfl⟩

theorem mem_blocks_iff_live {b : Region} : b ∈ s.blocks ↔ ∃ r ∈ s.live, r.bare = b := by
  constructor
  · rintro ⟨slot, r, hr, hb⟩
    exact ⟨r, ⟨slot, hr⟩, hb⟩
  · rintro ⟨r, ⟨slot, hr⟩, hb⟩
    exact ⟨slot, r, hr, hb⟩

theorem mem_blocks_iff_slots {b : Region} :
    b ∈ s.blocks ↔ b ∈ s.slots.filterMap (Option.map Region.bare) := by
  simp only [mem_blocks, regionAt?_eq_some_iff, List.mem_filterMap, Option.map_eq_some_iff]
  constructor
  · rintro ⟨slot, r, hr, hb⟩
    exact ⟨some r, List.mem_of_getElem? hr, r, rfl, hb⟩
  · rintro ⟨_, hin, r, rfl, hb⟩
    obtain ⟨slot, hslot⟩ := List.mem_iff_getElem?.1 hin
    exact ⟨slot, r, hslot, hb⟩

instance (s : Space) (b : Region) : Decidable (b ∈ s.blocks) :=
  decidable_of_iff _ mem_blocks_iff_slots.symm

instance (s : Space) (p : Region → Prop) [DecidablePred p] : Decidable (∀ b ∈ s.blocks, p b) :=
  decidable_of_iff (∀ b ∈ s.slots.filterMap (Option.map Region.bare), p b) <| by
    simp only [mem_blocks_iff_slots]

namespace Names

variable {key : Region → Nat} {index : Index Nat}

theorem slot_unique (h : s.Names key index) {i j : Nat} {q : Region}
    (hi : s.regionAt? i = some r) (hj : s.regionAt? j = some q) (hk : key r = key q) : i = j :=
  Index.value_unique ((h (key r) i).2 ⟨r, hi, rfl⟩) ((h (key r) j).2 ⟨q, hj, hk.symm⟩)

theorem values_nodup (h : s.Names key index) : index.values.Nodup := by
  refine Index.values_nodup ?_
  rintro ⟨k, i⟩ hi ⟨l, j⟩ hj heq
  obtain ⟨r, hr, rfl⟩ := (h k i).1 hi
  obtain ⟨q, hq, rfl⟩ := (h l j).1 hj
  simp only at heq
  rw [heq, hq] at hr
  rw [Option.some.inj hr]

/-- Every slot that an index names is live. -/
theorem exists_of_mem_values (h : s.Names key index) (hslot : slot ∈ index.values) :
    ∃ r, s.regionAt? slot = some r := by
  obtain ⟨k, hin⟩ := Index.mem_values.1 hslot
  obtain ⟨r, hr, -⟩ := (h k slot).1 hin
  exact ⟨r, hr⟩

/-- The regions that an index leads to, in key order. -/
theorem regions_ascending (h : s.Names key index) :
    (index.values.filterMap s.regionAt?).Pairwise (fun a b => key a < key b) := by
  rw [Index.values, List.filterMap_map, List.pairwise_filterMap]
  refine index.ascending.imp_of_mem ?_
  rintro ⟨k, i⟩ ⟨l, j⟩ hi hj hlt a ha b hb
  obtain ⟨r, hr, rfl⟩ := (h k i).1 hi
  obtain ⟨q, hq, rfl⟩ := (h l j).1 hj
  simp only [Function.comp_apply] at ha hb
  rw [hr] at ha
  rw [hq] at hb
  cases ha
  cases hb
  exact hlt

theorem regions_nodup (h : s.Names key index) :
    (index.values.filterMap s.regionAt?).Nodup := by
  refine h.regions_ascending.imp ?_
  rintro a b hlt rfl
  exact Nat.lt_irrefl _ hlt

theorem mem_regions (h : s.Names key index) :
    r ∈ index.values.filterMap s.regionAt? ↔ r ∈ s.live := by
  rw [List.mem_filterMap, mem_live]
  constructor
  · rintro ⟨slot, -, hr⟩
    exact ⟨slot, hr⟩
  · rintro ⟨slot, hr⟩
    exact ⟨slot, Index.mem_values.2 ⟨key r, (h _ _).2 ⟨r, hr, rfl⟩⟩, hr⟩

end Names

namespace Coherent

theorem slot_unique (h : s.Coherent) {i j : Nat} {q : Region} (hi : s.regionAt? i = some r)
    (hj : s.regionAt? j = some q) (heq : r.start = q.start) : i = j :=
  h.byStart.slot_unique hi hj heq

theorem regionAt?_nextSlot (h : s.Coherent) : s.regionAt? s.nextSlot = none := by
  simp only [regionAt?, nextSlot]
  cases hv : s.vacant with
  | nil => simp
  | cons slot rest =>
    have hs : s.slots[slot]? = some none := (h.mem_vacant slot).1 (by simp [hv])
    simp [hs]

theorem slots_store (h : s.Coherent) (r : Region) (i : Nat) :
    (s.store r).slots[i]? = if i = s.nextSlot then some (some r) else s.slots[i]? := by
  unfold store
  split
  · rename_i slot rest hv
    have hs : s.slots[slot]? = some none := (h.mem_vacant slot).1 (by simp [hv])
    have hlt : slot < s.slots.length := (List.getElem?_eq_some_iff.1 hs).1
    have hn : s.nextSlot = slot := by simp [nextSlot, hv]
    rw [hn, List.getElem?_set]
    by_cases hi : i = slot
    · simp [hi, hlt]
    · simp [hi, Ne.symm hi]
  · rename_i hv
    have hn : s.nextSlot = s.slots.length := by simp [nextSlot, hv]
    rw [hn, List.getElem?_append]
    by_cases hi : i = s.slots.length
    · simp [hi]
    · rw [if_neg hi]
      split
      · rfl
      · rw [List.getElem?_eq_none (by simp; omega), List.getElem?_eq_none (by omega)]

theorem regionAt?_store (h : s.Coherent) (r : Region) (i : Nat) :
    (s.store r).regionAt? i = if i = s.nextSlot then some r else s.regionAt? i := by
  simp only [regionAt?, h.slots_store]
  by_cases hi : i = s.nextSlot <;> simp [hi]

end Coherent

/-- Vacating a slot empties it and leaves the others as they are. -/
theorem regionAt?_vacate (s : Space) (slot : Nat) (r : Region) (i : Nat) :
    (s.vacate slot r).regionAt? i = if i = slot then none else s.regionAt? i := by
  simp only [vacate, regionAt?, List.getElem?_set]
  by_cases hi : i = slot
  · subst hi
    by_cases hlt : i < s.slots.length <;> simp [hlt]
  · simp [hi, Ne.symm hi]

theorem regionAt?_adjust (s : Space) (slot : Nat) (f : Region → Region) (i : Nat) :
    (s.adjust slot f).regionAt? i =
      if i = slot then (s.regionAt? slot).map f else s.regionAt? i := by
  by_cases hi : i = slot
  · rw [hi, regionAt?_adjust_self, if_pos rfl]
  · rw [regionAt?_adjust_of_ne _ _ (Ne.symm hi), if_neg hi]

/-- Of a change of one region only what it does to that region counts. -/
theorem adjust_congr (hr : s.regionAt? slot = some r) {f g : Region → Region} (hfg : f r = g r) :
    s.adjust slot f = s.adjust slot g := by
  have hslots : s.slots.modify slot (Option.map f) = s.slots.modify slot (Option.map g) := by
    refine List.ext_getElem? fun i => ?_
    rw [List.getElem?_modify, List.getElem?_modify]
    split
    · rename_i heq
      subst heq
      rw [regionAt?_eq_some_iff.1 hr]
      exact congrArg (fun r => some (some r)) hfg
    · rfl
  simp only [adjust, hslots]

/-! ## Changes of one slot -/

theorem byStart_store (s : Space) (r : Region) :
    (s.store r).byStart = s.byStart.insert r.start s.nextSlot := by
  unfold store nextSlot
  split <;> simp [*]

theorem byPlace_store (s : Space) (r : Region) :
    (s.store r).byPlace = s.byPlace.insert r.place s.nextSlot := by
  unfold store nextSlot
  split <;> simp [*]

theorem vacant_store (s : Space) (r : Region) : (s.store r).vacant = s.vacant.tail := by
  unfold store
  split <;> simp [*]

@[simp] theorem page_store (s : Space) (r : Region) : (s.store r).page = s.page := by
  unfold store
  split <;> rfl

@[simp] theorem page_vacate (s : Space) (slot : Nat) (r : Region) :
    (s.vacate slot r).page = s.page := rfl

@[simp] theorem page_adjust (s : Space) (slot : Nat) (f : Region → Region) :
    (s.adjust slot f).page = s.page := rfl

namespace Names

variable {key : Region → Nat} {index : Index Nat}

theorem store (h : s.Names key index) (hs : s.Coherent) (r : Region)
    (hfresh : ∀ q ∈ s.live, key q ≠ key r) :
    (s.store r).Names key (index.insert (key r) s.nextSlot) := by
  intro k i
  rw [Index.mem_insert, h, hs.regionAt?_store]
  constructor
  · rintro (heq | ⟨⟨q, hq, hk⟩, -⟩)
    · cases heq
      exact ⟨r, if_pos rfl, rfl⟩
    · have hi : i ≠ s.nextSlot := by
        rintro rfl
        rw [hs.regionAt?_nextSlot] at hq
        cases hq
      exact ⟨q, by rw [if_neg hi]; exact hq, hk⟩
  · rintro ⟨q, hq, rfl⟩
    by_cases hi : i = s.nextSlot
    · rw [if_pos hi] at hq
      cases hq
      exact .inl (by rw [hi])
    · rw [if_neg hi] at hq
      exact .inr ⟨⟨q, hq, rfl⟩, hfresh q ⟨i, hq⟩⟩

theorem vacate (h : s.Names key index) (hr : s.regionAt? slot = some r) :
    (s.vacate slot r).Names key (index.erase (key r)) := by
  intro k i
  rw [Index.mem_erase, h, regionAt?_vacate]
  constructor
  · rintro ⟨⟨q, hq, rfl⟩, hne⟩
    have hi : i ≠ slot := by
      rintro rfl
      rw [hq] at hr
      cases hr
      exact hne rfl
    exact ⟨q, by rw [if_neg hi]; exact hq, rfl⟩
  · rintro ⟨q, hq, rfl⟩
    by_cases hi : i = slot
    · rw [if_pos hi] at hq
      cases hq
    · rw [if_neg hi] at hq
      exact ⟨⟨q, hq, rfl⟩, fun hk => hi (h.slot_unique hq hr hk)⟩

theorem adjust (h : s.Names key index) {f : Region → Region} (hf : ∀ p, key (f p) = key p) :
    (s.adjust slot f).Names key index := by
  intro k i
  rw [h, regionAt?_adjust]
  by_cases hi : i = slot
  · subst hi
    simp [hf]
  · simp [hi]

end Names

theorem coherent_empty (page : Nat) : (empty page).Coherent := by
  refine ⟨?_, ?_, .nil, ?_⟩ <;> simp [Names, empty, regionAt?, Index.empty]

theorem coherent_store (h : s.Coherent) (r : Region) (hstart : ∀ q ∈ s.live, q.start ≠ r.start)
    (hplace : ∀ q ∈ s.live, q.place ≠ r.place) : (s.store r).Coherent where
  byStart := by
    rw [byStart_store]
    exact h.byStart.store h r hstart
  byPlace := by
    rw [byPlace_store]
    exact h.byPlace.store h r hplace
  vacant_nodup := by
    rw [vacant_store]
    exact h.vacant_nodup.tail
  mem_vacant i := by
    rw [vacant_store, h.slots_store]
    have hnodup := h.vacant_nodup
    have hmem := h.mem_vacant i
    cases hv : s.vacant with
    | nil =>
      rw [hv] at hmem
      by_cases hi : i = s.nextSlot <;> simp [hi] at hmem ⊢
      exact hmem
    | cons slot rest =>
      have hn : s.nextSlot = slot := by simp [nextSlot, hv]
      rw [hv, List.nodup_cons] at hnodup
      rw [hv, List.mem_cons] at hmem
      rw [hn]
      by_cases hi : i = slot
      · simp [hi, hnodup.1]
      · simpa [hi] using hmem

theorem coherent_vacate (h : s.Coherent) (hr : s.regionAt? slot = some r) :
    (s.vacate slot r).Coherent where
  byStart := h.byStart.vacate hr
  byPlace := h.byPlace.vacate hr
  vacant_nodup := by
    refine List.nodup_cons.2 ⟨?_, h.vacant_nodup⟩
    rw [h.mem_vacant, regionAt?_eq_some_iff.1 hr]
    simp
  mem_vacant i := by
    have hlt : slot < s.slots.length :=
      (List.getElem?_eq_some_iff.1 (regionAt?_eq_some_iff.1 hr)).1
    simp only [Space.vacate, List.mem_cons, List.getElem?_set]
    by_cases hi : i = slot
    · simp [hi, hlt]
    · simp [hi, Ne.symm hi, h.mem_vacant]

theorem coherent_adjust (h : s.Coherent) {f : Region → Region} (hstart : ∀ p, (f p).start = p.start)
    (hplace : ∀ p, (f p).place = p.place) : (s.adjust slot f).Coherent where
  byStart := h.byStart.adjust hstart
  byPlace := h.byPlace.adjust hplace
  vacant_nodup := h.vacant_nodup
  mem_vacant i := by
    rw [show (s.adjust slot f).vacant = s.vacant from rfl, h.mem_vacant]
    simp only [Space.adjust, List.getElem?_modify]
    cases s.slots[i]? with
    | none => simp
    | some o =>
      by_cases hi : slot = i <;> simp [hi]

theorem live_store (h : s.Coherent) (r : Region) : (s.store r).live = insert r s.live := by
  ext q
  rw [Set.mem_insert_iff, mem_live, mem_live]
  constructor
  · rintro ⟨i, hi⟩
    rw [h.regionAt?_store] at hi
    split at hi
    · cases hi
      exact .inl rfl
    · exact .inr ⟨i, hi⟩
  · rintro (rfl | ⟨i, hi⟩)
    · exact ⟨s.nextSlot, by rw [h.regionAt?_store, if_pos rfl]⟩
    · refine ⟨i, ?_⟩
      rw [h.regionAt?_store, if_neg ?_]
      · exact hi
      · rintro rfl
        rw [h.regionAt?_nextSlot] at hi
        cases hi

theorem live_vacate (h : s.Coherent) (hr : s.regionAt? slot = some r) :
    (s.vacate slot r).live = s.live \ {r} := by
  ext q
  rw [Set.mem_sdiff, Set.mem_singleton_iff, mem_live, mem_live]
  constructor
  · rintro ⟨i, hi⟩
    rw [regionAt?_vacate] at hi
    split at hi
    · cases hi
    · rename_i hne
      exact ⟨⟨i, hi⟩, fun heq => hne (h.slot_unique hi hr (by rw [heq]))⟩
  · rintro ⟨⟨i, hi⟩, hne⟩
    refine ⟨i, ?_⟩
    rw [regionAt?_vacate, if_neg ?_]
    · exact hi
    · rintro rfl
      rw [hi] at hr
      exact hne (Option.some.inj hr)

theorem live_adjust (h : s.Coherent) {p : Region} (hp : s.regionAt? slot = some p)
    (f : Region → Region) : (s.adjust slot f).live = insert (f p) (s.live \ {p}) := by
  ext q
  rw [Set.mem_insert_iff, Set.mem_sdiff, Set.mem_singleton_iff, mem_live, mem_live]
  constructor
  · rintro ⟨i, hi⟩
    rw [regionAt?_adjust, hp] at hi
    split at hi
    · cases hi
      exact .inl rfl
    · rename_i hne
      exact .inr ⟨⟨i, hi⟩, fun heq => hne (h.slot_unique hi hp (by rw [heq]))⟩
  · rintro (rfl | ⟨⟨i, hi⟩, hne⟩)
    · exact ⟨slot, by rw [regionAt?_adjust, if_pos rfl, hp]; rfl⟩
    · refine ⟨i, ?_⟩
      rw [regionAt?_adjust, if_neg ?_]
      · exact hi
      · rintro rfl
        rw [hi] at hp
        exact hne (Option.some.inj hp)

theorem blocks_store (h : s.Coherent) (r : Region) :
    (s.store r).blocks = insert r.bare s.blocks := by
  ext b
  simp only [mem_blocks_iff_live, live_store h, Set.mem_insert_iff]
  constructor
  · rintro ⟨q, rfl | hq, rfl⟩
    · exact .inl rfl
    · exact .inr ⟨q, hq, rfl⟩
  · rintro (rfl | ⟨q, hq, rfl⟩)
    · exact ⟨r, .inl rfl, rfl⟩
    · exact ⟨q, .inr hq, rfl⟩

theorem blocks_vacate (h : s.Coherent) (hr : s.regionAt? slot = some r) :
    (s.vacate slot r).blocks = s.blocks \ {r.bare} := by
  ext b
  simp only [mem_blocks_iff_live, live_vacate h hr, Set.mem_sdiff, Set.mem_singleton_iff]
  constructor
  · rintro ⟨q, ⟨⟨i, hi⟩, hne⟩, rfl⟩
    refine ⟨⟨q, ⟨i, hi⟩, rfl⟩, fun heq => hne ?_⟩
    have hstart : q.bare.start = r.bare.start := congrArg Region.start heq
    rw [h.slot_unique hi hr hstart, hr] at hi
    exact (Option.some.inj hi).symm
  · rintro ⟨⟨q, hq, rfl⟩, hne⟩
    exact ⟨q, ⟨hq, fun heq => hne (by rw [heq])⟩, rfl⟩

theorem blocks_adjust (s : Space) (slot : Nat) {f : Region → Region}
    (hf : ∀ p, (f p).bare = p.bare) : (s.adjust slot f).blocks = s.blocks := by
  ext b
  simp only [mem_blocks, regionAt?_adjust]
  constructor
  · rintro ⟨i, q, hq, rfl⟩
    split at hq
    · obtain ⟨p, hp, rfl⟩ := Option.map_eq_some_iff.1 hq
      exact ⟨slot, p, hp, (hf p).symm⟩
    · exact ⟨i, q, hq, rfl⟩
  · rintro ⟨i, q, hq, rfl⟩
    by_cases hi : i = slot
    · subst hi
      exact ⟨i, f q, by rw [if_pos rfl, hq]; rfl, hf q⟩
    · exact ⟨i, q, by rw [if_neg hi]; exact hq, rfl⟩

end Space
end Unslide
