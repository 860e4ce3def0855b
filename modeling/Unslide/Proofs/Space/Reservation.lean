import Mathlib.Order.Bounds.Basic
import Unslide.Proofs.Space.FirstFit

/-!
# Unslide.Proofs.Space.Reservation

The law of a reservation, as a relation between the blocks before and behind it. `Reserves` has one
constructor for each way in which a reservation can end. In particular a region that is carved is
always replaced by all of its pieces: the bytes it leaves are room enough for them, one behind the
other, so each of them fits somewhere (`reserveEach_obeys`).

* `mem_touching`: the search for collisions finds the regions that meet an interval, and no others.
* `carve_granted`: with both cuts on page boundaries, a region is replaced by all of its pieces.
* `reserve_obeys`: every reservation follows the law and keeps the space sound.
-/

namespace Unslide

/-- The region covers the interval of the request and is larger. -/
def Region.Encloses (old : Region) (q : Request) : Prop := old.Covers q.region ∧ q.size < old.size

instance (old : Region) (q : Request) : Decidable (old.Encloses q) :=
  inferInstanceAs (Decidable (_ ∧ _))

/-- A block of the interval of `old`, or of a part of it, whose file offsets go on from those of
`old`. -/
structure Region.PartOf (b old : Region) : Prop where
  id : b.id = old.id
  start : old.start ≤ b.start
  stop : b.stop ≤ old.stop
  base : wrap b.base = wrap (old.base + (b.start - old.start))

theorem Region.PartOf.refl (b : Region) : b.PartOf b where
  id := rfl
  start := Nat.le_refl _
  stop := Nat.le_refl _
  base := by rw [Nat.sub_self, Nat.add_zero]

def spared (B : Set Region) (q : Request) : Set Region := {b | b ∈ B ∧ ¬ b.Meets q.region}

namespace Space

/-- Requests placed one after the other, each at the least address at which it fits. -/
inductive PlacesEach (page : Nat) : Set Region → List Request → Set Region → Prop where
  | nil {B : Set Region} : PlacesEach page B [] B
  | cons {B B' : Set Region} {q : Request} {rest : List Request} {m : Nat} :
      IsLeast {m | Fits page B q m} m → PlacesEach page (insert (q.block m) B) rest B' →
      PlacesEach page B (q :: rest) B'

/-- What a reservation answers, and the blocks that it leaves. -/
inductive Reserves (page : Nat) (B : Set Region) (q : Request) (replace : Bool) :
    Except Refusal Unit → Set Region → Prop where
  | invalid : ¬ q.Valid → Reserves page B q replace (.error (.invalid q.start q.size)) B
  | collision {b : Region} : q.Valid → replace = false → b ∈ B → b.Meets q.region →
      Reserves page B q replace (.error (.collision q.start q.size)) B
  | misaligned {old : Region} : q.Valid → replace = true → old ∈ B → old.Encloses q →
      ¬ CutsOnPages page old q →
      Reserves page B q replace (.error (.misaligned q.start q.size old.start old.size)) B
  | carved {old : Region} {B' : Set Region} : q.Valid → replace = true → old ∈ B →
      old.Encloses q → CutsOnPages page old q → PlacesEach page (B \ {old}) (pieces old q) B' →
      Reserves page B q replace (.ok ()) B'
  | settled {answer : Except Refusal Unit} {B' : Set Region} : q.Valid →
      (∀ b ∈ B, b.Meets q.region → replace = true ∧ ¬ b.Encloses q) →
      Settles page (spared B q) q answer B' → Reserves page B q replace answer B'

variable {s : Space} {q : Request} {slot : Nat} {r old : Region}

theorem mem_spared {B : Set Region} {b : Region} :
    b ∈ spared B q ↔ b ∈ B ∧ ¬ b.Meets q.region := Iff.rfl

theorem spared_of_free {B : Set Region} (h : ∀ b ∈ B, ¬ b.Meets q.region) : spared B q = B := by
  ext b
  rw [mem_spared]
  exact ⟨fun hb => hb.1, fun hb => ⟨hb, h b hb⟩⟩

theorem meets_of_encloses {b : Region} (hv : q.Valid) (henc : b.Encloses q) :
    b.Meets q.region := by
  obtain ⟨⟨hstart, hstop⟩, -⟩ := henc
  have hpos := Nat.pos_of_ne_zero hv.1
  simp only [Region.Meets, Region.stop, Request.region] at hstart hstop ⊢
  omega

/-- Of blocks that do not meet, only one can enclose a request. -/
theorem eq_of_encloses {B : Set Region} (hB : ∀ a ∈ B, ∀ b ∈ B, a.Meets b → a = b) {a b : Region}
    (hv : q.Valid) (ha : a ∈ B) (hb : b ∈ B) (henca : a.Encloses q) (hencb : b.Encloses q) :
    a = b := by
  have hpos := Nat.pos_of_ne_zero hv.1
  refine hB a ha b hb ?_
  obtain ⟨⟨hastart, hastop⟩, -⟩ := henca
  obtain ⟨⟨hbstart, hbstop⟩, -⟩ := hencb
  simp only [Region.Meets, Region.stop, Request.region] at hastart hastop hbstart hbstop ⊢
  omega

theorem PlacesEach.subset {page : Nat} {B B' : Set Region} {qs : List Request}
    (h : PlacesEach page B qs B') : B ⊆ B' := by
  induction h with
  | nil => exact fun b hb => hb
  | cons _ _ ih => exact fun b hb => ih (.inr hb)

theorem PlacesEach.mem_block {page : Nat} {B B' : Set Region} {qs : List Request}
    (h : PlacesEach page B qs B') {c : Request} (hc : c ∈ qs) : ∃ m, c.block m ∈ B' := by
  induction h with
  | nil => cases hc
  | @cons _ _ _ _ m _ hrest ih =>
    rcases List.mem_cons.1 hc with rfl | hc
    · exact ⟨m, hrest.subset (.inl rfl)⟩
    · exact ih hc

theorem PlacesEach.mem_or {page : Nat} {B B' : Set Region} {qs : List Request}
    (h : PlacesEach page B qs B') {b : Region} (hb : b ∈ B') :
    b ∈ B ∨ ∃ c ∈ qs, ∃ m, b = c.block m := by
  induction h with
  | nil => exact .inl hb
  | @cons B B' q rest m _ _ ih =>
    rcases ih hb with (rfl | hin) | ⟨c, hc, m', rfl⟩
    · exact .inr ⟨q, by simp, m, rfl⟩
    · exact .inl hin
    · exact .inr ⟨c, by simp [hc], m', rfl⟩

theorem PlacesEach.unique {page : Nat} {B B₁ B₂ : Set Region} {qs : List Request}
    (h₁ : PlacesEach page B qs B₁) (h₂ : PlacesEach page B qs B₂) : B₁ = B₂ := by
  induction h₁ with
  | nil =>
    cases h₂
    rfl
  | cons hleast _ ih =>
    cases h₂ with
    | cons hleast' hrest' =>
      cases IsLeast.unique hleast hleast'
      exact ih hrest'

/-- A reservation that is granted leaves a block with the interval of the request. -/
theorem Reserves.mem_block {page : Nat} {B B' : Set Region} {replace : Bool}
    (h : Reserves page B q replace (.ok ()) B') : ∃ m, q.block m ∈ B' := by
  cases h with
  | carved _ _ _ _ _ hplaces => exact hplaces.mem_block (by simp [pieces])
  | settled _ _ hsettles =>
    cases hsettles with
    | room _ => exact ⟨_, .inl rfl⟩

/-- The law leaves no choice: a reservation that can be granted cannot end in another way. -/
theorem Reserves.unique_of_granted {page : Nat} {B B₁ B₂ : Set Region}
    {answer : Except Refusal Unit} (hB : ∀ a ∈ B, ∀ b ∈ B, a.Meets b → a = b)
    (h₁ : Reserves page B q true (.ok ()) B₁) (h₂ : Reserves page B q true answer B₂) :
    answer = .ok () ∧ B₂ = B₁ := by
  cases h₁ with
  | carved hv _ hold henc hcuts hplaces =>
    cases h₂ with
    | invalid hv' => exact absurd hv hv'
    | collision _ hreplace _ _ => cases hreplace
    | misaligned _ _ hold' henc' hcuts' =>
      cases eq_of_encloses hB hv hold hold' henc henc'
      exact absurd hcuts hcuts'
    | carved _ _ hold' henc' _ hplaces' =>
      cases eq_of_encloses hB hv hold hold' henc henc'
      exact ⟨rfl, hplaces'.unique hplaces⟩
    | settled _ hmeets _ => exact absurd henc (hmeets _ hold (meets_of_encloses hv henc)).2
  | settled hv hmeets hsettles =>
    cases hsettles with
    | room hleast =>
      cases h₂ with
      | invalid hv' => exact absurd hv hv'
      | collision _ hreplace _ _ => cases hreplace
      | misaligned _ _ hold' henc' _ =>
        exact absurd henc' (hmeets _ hold' (meets_of_encloses hv henc')).2
      | carved _ _ hold' henc' _ _ =>
        exact absurd henc' (hmeets _ hold' (meets_of_encloses hv henc')).2
      | settled _ _ hsettles' =>
        cases hsettles' with
        | room hleast' =>
          cases IsLeast.unique hleast hleast'
          exact ⟨rfl, rfl⟩
        | full hnone => exact absurd hleast.1 (hnone _)

/-! ## The search for collisions -/

/-- The nearest region that starts below an interval meets it if any of those regions does. -/
theorem mem_touching (h : s.Sound) :
    slot ∈ s.touching r ↔ ∃ p, s.regionAt? slot = some p ∧ p.Meets r := by
  have hvalid : ∀ {i : Nat} {p : Region}, s.regionAt? i = some p → 0 < p.size :=
    fun hp => (h.valid _ (mem_blocks_of_regionAt? hp)).1
  simp only [touching, List.mem_append, List.mem_map, Index.mem_within]
  constructor
  · rintro (hbelow | ⟨⟨k, i⟩, ⟨hin, hlow, hhigh⟩, rfl⟩)
    · split at hbelow
      · simp at hbelow
      · split at hbelow
        · simp at hbelow
        · rename_i p hp
          split at hbelow
          · rename_i hmeets
            rw [List.mem_singleton] at hbelow
            subst hbelow
            exact ⟨p, hp, hmeets⟩
          · simp at hbelow
    · obtain ⟨p, hp, rfl⟩ := (h.coherent.byStart k i).1 hin
      have hppos := hvalid hp
      refine ⟨p, hp, ?_⟩
      simp only [Region.Meets, Region.stop] at hlow hhigh ⊢
      omega
  · rintro ⟨p, hp, hmeets⟩
    have hin := (h.coherent.byStart p.start slot).2 ⟨p, hp, rfl⟩
    by_cases hlow : r.start ≤ p.start
    · exact .inr ⟨(p.start, slot), ⟨hin, hlow, hmeets.1⟩, rfl⟩
    · left
      have hbelow : s.byStart.below? r.start = some (p.start, slot) := by
        refine Index.below?_eq_some_iff.2 ⟨⟨hin, Nat.lt_of_not_le hlow⟩, ?_⟩
        rintro ⟨k, i⟩ hki hlt
        obtain ⟨c, hc, rfl⟩ := (h.coherent.byStart k i).1 hki
        by_contra hgt
        -- a region between `p` and the interval would have to share an address with `p`
        have hcpos := hvalid hc
        have hshare : c.bare.Meets p.bare := by
          simp only [Region.Meets, Region.stop, Region.bare_start, Region.bare_size] at hmeets ⊢
          simp only at hlt hgt
          omega
        have heq := congrArg Region.start
          (h.apart _ (mem_blocks_of_regionAt? hc) _ (mem_blocks_of_regionAt? hp) hshare)
        simp only [Region.bare_start] at heq hgt
        omega
      simp [hbelow, hp, hmeets]

theorem touching_nodup (h : s.Sound) : (s.touching r).Nodup := by
  have hwithin : ((s.byStart.within r.start r.stop).map (·.2)).Nodup :=
    h.coherent.byStart.values_nodup.sublist (List.filter_sublist.map _)
  simp only [touching]
  refine List.nodup_append.2 ⟨?_, hwithin, ?_⟩
  · split
    · exact .nil
    · split
      · exact .nil
      · split
        · simp
        · exact .nil
  · intro i hi j hj heq
    subst heq
    split at hi
    · simp at hi
    · rename_i k slot' hbelow
      split at hi
      · simp at hi
      · split at hi
        · rw [List.mem_singleton] at hi
          subst hi
          obtain ⟨⟨k', i'⟩, hin', rfl⟩ := List.mem_map.1 hj
          rw [Index.mem_within] at hin'
          obtain ⟨⟨hin, hlt⟩, -⟩ := Index.below?_eq_some_iff.1 hbelow
          obtain ⟨c, hc, rfl⟩ := (h.coherent.byStart _ _).1 hin
          obtain ⟨c', hc', rfl⟩ := (h.coherent.byStart _ _).1 hin'.1
          simp only at hc hc' hlt hin'
          rw [hc] at hc'
          cases hc'
          omega
        · simp at hi

theorem free_of_touching_nil (h : s.Sound) (hnil : s.touching q.region = []) :
    ∀ b ∈ s.blocks, ¬ b.Meets q.region := by
  rintro b ⟨i, p, hp, rfl⟩ hmeets
  have hin : i ∈ s.touching q.region := (mem_touching h).2 ⟨p, hp, hmeets⟩
  rw [hnil] at hin
  cases hin

theorem touching_nil_of_free (h : s.Sound) (hfree : ∀ b ∈ s.blocks, ¬ b.Meets q.region) :
    s.touching q.region = [] := by
  refine List.eq_nil_iff_forall_not_mem.2 ?_
  intro i hi
  obtain ⟨p, hp, hmeets⟩ := (mem_touching h).1 hi
  exact hfree p.bare (mem_blocks_of_regionAt? hp) hmeets

theorem exists_of_mem_touching (h : s.Sound) (hin : slot ∈ s.touching r) :
    ∃ p, s.regionAt? slot = some p := by
  obtain ⟨p, hp, -⟩ := (mem_touching h).1 hin
  exact ⟨p, hp⟩

/-- Of a slot with a region it is told from the block alone whether it is found. -/
theorem mem_touching_iff_meets (h : s.Sound) {b : Region} (hb : s.blockAt? slot = some b) :
    slot ∈ s.touching r ↔ b.Meets r := by
  obtain ⟨p, hp, rfl⟩ := Option.map_eq_some_iff.1 hb
  rw [mem_touching h]
  constructor
  · intro hfound
    obtain ⟨c, hc, hmeets⟩ := hfound
    rw [hp] at hc
    cases hc
    exact hmeets
  · intro hmeets
    exact ⟨p, hp, hmeets⟩

theorem blockAt?_releaseAll_touching (h : s.Sound) (slot : Nat) (b : Region) :
    (s.releaseAll (s.touching q.region)).blockAt? slot = some b ↔
      s.blockAt? slot = some b ∧ ¬ b.Meets q.region := by
  rw [blockAt?_releaseAll]
  constructor
  · intro hb
    split at hb
    · cases hb
    · rename_i hout
      exact ⟨hb, fun hmeets => hout ((mem_touching_iff_meets h hb).2 hmeets)⟩
  · intro hkept
    obtain ⟨hb, hfree⟩ := hkept
    rw [if_neg fun hin => hfree ((mem_touching_iff_meets h hb).1 hin)]
    exact hb

theorem blocks_releaseAll_touching (h : s.Sound) :
    (s.releaseAll (s.touching q.region)).blocks = spared s.blocks q := by
  ext b
  rw [mem_spared, mem_blocks_iff_blockAt?, mem_blocks_iff_blockAt?]
  simp only [blockAt?_releaseAll_touching h]
  exact exists_and_right

/-! ## Carving -/

/-- No block takes a byte from `lo` to `hi`. -/
def Hole (B : Set Region) (lo hi : Nat) : Prop :=
  hi ≤ top ∧ ∀ b ∈ B, hi ≤ b.place ∨ b.placeEnd ≤ lo

theorem Hole.fits {B : Set Region} {page lo hi : Nat} (h : Hole B lo hi)
    (hoff : pageOffset page lo = pageOffset page q.start) (hle : lo + q.size ≤ hi) :
    Fits page B q lo := by
  refine ⟨Nat.le_trans hle h.1, ?_, hoff⟩
  intro b hb
  rcases h.2 b hb with hbefore | hbehind
  · exact .inl (Nat.le_trans hle hbefore)
  · exact .inr hbehind

/-- A request that is placed at the start of a hole, or before it, leaves the rest of the hole. -/
theorem Hole.block {B : Set Region} {lo hi m : Nat} (h : Hole B lo hi) (hm : m ≤ lo) :
    Hole (insert (q.block m) B) (lo + q.size) hi := by
  refine ⟨h.1, ?_⟩
  rintro b (rfl | hb)
  · right
    simp only [Region.placeEnd, Request.block, Request.region]
    omega
  · rcases h.2 b hb with hbefore | hbehind
    · exact .inl hbefore
    · exact .inr (by omega)

/-- The bytes of a block that was taken away are a hole. -/
theorem Sound.hole (h : s.Sound) (hold : old ∈ s.blocks) :
    Hole (s.blocks \ {old}) old.place old.placeEnd := by
  refine ⟨h.placeEnd_le_top hold, ?_⟩
  rintro b ⟨hb, hne⟩
  exact h.placed_apart hold hb (Ne.symm hne)

/-- The requests fit between `lo` and `hi`, one behind the other. -/
def FitInRow (page hi : Nat) : Nat → List Request → Prop
  | _, [] => True
  | lo, q :: rest =>
    pageOffset page lo = pageOffset page q.start ∧ lo + q.size ≤ hi ∧
      FitInRow page hi (lo + q.size) rest

theorem pageOffset_add_congr {page a b : Nat} (h : pageOffset page a = pageOffset page b)
    (n : Nat) :
    pageOffset page (a + n) = pageOffset page (b + n) := by
  by_cases hp : page = 0
  · simp [pageOffset, hp]
  · simp only [pageOffset, hp, if_false] at h ⊢
    rw [Nat.add_mod, h, ← Nat.add_mod]

/-- Requests that fit in a row in a hole are placed in front of its end. -/
theorem PlacesEach.placeEnd_le {page hi : Nat} {B B' : Set Region} {qs : List Request}
    (h : PlacesEach page B qs B') {lo : Nat} (hhole : Hole B lo hi)
    (hrow : FitInRow page hi lo qs) {b : Region} (hb : b ∈ B') : b ∈ B ∨ b.placeEnd ≤ hi := by
  induction h generalizing lo with
  | nil => exact .inl hb
  | @cons B B' q rest m hleast _ ih =>
    obtain ⟨hoff, hle, hrest⟩ := hrow
    have hm : m ≤ lo := hleast.2 (hhole.fits hoff hle)
    rcases ih (hhole.block hm) hrest hb with (rfl | hin) | hend
    · right
      simp only [Region.placeEnd, Request.block, Request.region]
      omega
    · exact .inl hin
    · exact .inr hend

theorem reserveFree_obeys (h : s.Sound) (hv : q.Valid)
    (hfree : ∀ b ∈ s.blocks, ¬ b.Meets q.region) :
    s.Obeys (Settles s.page s.blocks q) (s.reserveFree q) := by
  simp only [reserveFree, hv, not_true_eq_false, if_false, touching_nil_of_free h hfree]
  exact settle_obeys h hv hfree

/-- Where requests fit in a row, each of them is granted: the hole that is left for the others
never ends before the row. -/
theorem reserveEach_obeys {hi : Nat} (qs : List Request) :
    ∀ {s : Space} {lo : Nat}, s.Sound → Hole s.blocks lo hi → FitInRow s.page hi lo qs →
      (∀ q ∈ qs, q.Valid) → (∀ q ∈ qs, ∀ b ∈ s.blocks, ¬ b.Meets q.region) →
      qs.Pairwise (fun a b => a.stop ≤ b.start) →
      s.Obeys (fun answer B => answer = .ok () ∧ PlacesEach s.page s.blocks qs B)
        (s.reserveEach qs) := by
  induction qs with
  | nil =>
    intro s lo h _ _ _ _ _
    exact ⟨h, rfl, rfl, .nil⟩
  | cons q rest ih =>
    intro s lo h hhole hrow hvalid hfree hdisjoint
    obtain ⟨hoff, hle, hrest⟩ := hrow
    rw [List.pairwise_cons] at hdisjoint
    have hv : q.Valid := hvalid q (by simp)
    have hfirst := reserveFree_obeys h hv (hfree q (by simp))
    have hfits := hhole.fits hoff hle
    obtain ⟨hsound, hpage, hlaw⟩ := hfirst
    simp only [reserveEach]
    generalize s.reserveFree q = first at hsound hpage hlaw
    obtain ⟨t, answer, notes⟩ := first
    simp only at hsound hpage hlaw ⊢
    generalize hblocks : t.blocks = B at hlaw
    cases hlaw with
    | full hnone => exact absurd hfits (hnone lo)
    | @room m hleast =>
      have hhole' : Hole t.blocks (lo + q.size) hi := by
        rw [hblocks]
        exact hhole.block (hleast.2 hfits)
      have hfree' : ∀ c ∈ rest, ∀ b ∈ t.blocks, ¬ b.Meets c.region := by
        rw [hblocks]
        rintro c hc b (rfl | hb)
        · have := hdisjoint.1 c hc
          simp only [Region.Meets, Region.stop, Request.block, Request.region,
            Request.stop] at this ⊢
          omega
        · exact hfree c (by simp [hc]) b hb
      have hmore := ih hsound hhole' (by rw [hpage]; exact hrest)
        (fun c hc => hvalid c (by simp [hc])) hfree' hdisjoint.2
      refine ⟨hmore.sound, by rw [Step.after_state, hmore.page, hpage], hmore.law.1, ?_⟩
      have hplaces := hmore.law.2
      rw [hpage, hblocks] at hplaces
      exact .cons hleast hplaces

def headPiece (old : Region) (q : Request) : Request :=
  ⟨old.start, q.start - old.start, old.id, old.base⟩

def tailPiece (old : Region) (q : Request) : Request :=
  ⟨q.stop, old.stop - q.stop, old.id, wrap (old.base + (q.start - old.start + q.size))⟩

theorem mem_pieces {c : Request} :
    c ∈ pieces old q ↔ (0 < q.start - old.start ∧ c = headPiece old q) ∨ c = q ∨
      (0 < old.stop - q.stop ∧ c = tailPiece old q) := by
  simp only [pieces, headPiece, tailPiece, List.mem_append, List.mem_singleton, or_assoc]
  split <;> split <;> simp [*]

theorem pieces_inside (hv : q.Valid) (htop : old.stop ≤ top) (henc : old.Encloses q) :
    ∀ c ∈ pieces old q, c.Valid ∧ old.start ≤ c.start ∧ c.stop ≤ old.stop := by
  obtain ⟨⟨hstart, hstop⟩, -⟩ := henc
  simp only [Region.stop, Request.region] at hstart hstop htop
  intro c hc
  rw [mem_pieces] at hc
  simp only [Request.Valid, Request.stop, Region.stop] at hv hc ⊢
  rcases hc with ⟨hpos, rfl⟩ | rfl | ⟨hpos, rfl⟩
  · simp only [headPiece]
    omega
  · omega
  · simp only [tailPiece, Request.stop, Region.stop]
    omega

theorem pieces_disjoint (henc : old.Encloses q) :
    (pieces old q).Pairwise (fun a b => a.stop ≤ b.start) := by
  obtain ⟨⟨hstart, hstop⟩, -⟩ := henc
  simp only [Region.stop, Request.region] at hstart hstop
  simp only [pieces]
  split <;> split <;> simp [Request.stop] <;> omega

theorem pieces_fitInRow {page : Nat} (henc : old.Encloses q)
    (hoff : pageOffset page old.place = pageOffset page old.start) :
    FitInRow page old.placeEnd old.place (pieces old q) := by
  obtain ⟨⟨hstart, hstop⟩, -⟩ := henc
  simp only [Region.stop, Request.region] at hstart hstop
  have hshift : ∀ n a, a = old.start + n → pageOffset page (old.place + n) = pageOffset page a := by
    rintro n a rfl
    exact pageOffset_add_congr hoff n
  have hq := hshift (q.start - old.start) q.start (by omega)
  have hend := hshift (q.start - old.start + q.size) q.stop (by simp only [Request.stop]; omega)
  rw [← Nat.add_assoc] at hend
  have htail : FitInRow page old.placeEnd (old.place + (q.start - old.start) + q.size)
      (if 0 < old.stop - q.stop then [tailPiece old q] else []) := by
    split
    · refine ⟨hend, ?_, trivial⟩
      simp only [tailPiece, Region.placeEnd, Region.stop, Request.stop]
      omega
    · trivial
  have hrest : FitInRow page old.placeEnd (old.place + (q.start - old.start))
      (q :: if 0 < old.stop - q.stop then [tailPiece old q] else []) := by
    refine ⟨hq, ?_, htail⟩
    simp only [Region.placeEnd]
    omega
  by_cases hhead : 0 < q.start - old.start
  · simp only [pieces, if_pos hhead]
    refine ⟨hoff, ?_, hrest⟩
    simp only [Region.placeEnd]
    omega
  · rw [Nat.eq_zero_of_not_pos hhead] at hrest
    simp only [pieces, if_neg hhead]
    exact hrest

/-- What meets an interval that a region covers meets the region. -/
theorem Sound.eq_of_covers (h : s.Sound) {b : Region} (hold : old ∈ s.blocks)
    (hcov : old.Covers r) (hb : b ∈ s.blocks) (hmeets : b.Meets r) : b = old := by
  refine h.apart b hb old hold ?_
  obtain ⟨hstart, hstop⟩ := hcov
  simp only [Region.Meets] at hmeets ⊢
  omega

theorem Sound.eq_of_encloses (h : s.Sound) {b : Region} (hold : old ∈ s.blocks)
    (henc : old.Encloses q) (hb : b ∈ s.blocks) (hmeets : b.Meets q.region) : b = old :=
  h.eq_of_covers hold henc.1 hb hmeets

theorem spared_of_covers (h : s.Sound) (hold : old ∈ s.blocks) (hcov : old.Covers q.region)
    (hmeets : old.Meets q.region) : spared s.blocks q = s.blocks \ {old} := by
  ext b
  rw [mem_spared, Set.mem_sdiff, Set.mem_singleton_iff]
  constructor
  · rintro ⟨hb, hfree⟩
    exact ⟨hb, fun heq => hfree (heq ▸ hmeets)⟩
  · rintro ⟨hb, hne⟩
    exact ⟨hb, fun hbm => hne (h.eq_of_covers hold hcov hb hbm)⟩

theorem spared_of_encloses (h : s.Sound) (hv : q.Valid) {old : Region} (hold : old ∈ s.blocks)
    (henc : old.Encloses q) : spared s.blocks q = s.blocks \ {old} :=
  spared_of_covers h hold henc.1 (meets_of_encloses hv henc)

theorem partOf_headPiece (hv : q.Valid) (henc : old.Encloses q) (m : Nat) :
    ((headPiece old q).block m).PartOf old where
  id := rfl
  start := Nat.le_refl _
  stop := by
    obtain ⟨⟨hstart, hstop⟩, -⟩ := henc
    have hpos := hv.1
    simp only [Region.stop, Request.block, Request.region, headPiece] at hstart hstop ⊢
    omega
  base := by simp [Request.block, Request.region, headPiece]

theorem partOf_tailPiece (henc : old.Encloses q) (m : Nat) :
    ((tailPiece old q).block m).PartOf old where
  id := rfl
  start := by
    obtain ⟨⟨hstart, -⟩, -⟩ := henc
    simp only [Request.block, Request.region, tailPiece, Request.stop] at hstart ⊢
    omega
  stop := by
    obtain ⟨⟨hstart, hstop⟩, -⟩ := henc
    simp only [Region.stop, Request.block, Request.region, Request.stop, tailPiece]
      at hstart hstop ⊢
    omega
  base := by
    obtain ⟨⟨hstart, -⟩, -⟩ := henc
    have hshift : q.start - old.start + q.size = q.stop - old.start := by
      simp only [Request.region, Request.stop] at hstart ⊢
      omega
    simp only [Request.block, Request.region, tailPiece, hshift, wrap, Nat.mod_mod]

/-- Every block that a reservation leaves is that of the request, or a block that was there before,
or a part of one. -/
theorem Reserves.mem_or {page : Nat} {B B' : Set Region} {replace : Bool}
    {answer : Except Refusal Unit} (h : Reserves page B q replace answer B') {b : Region}
    (hb : b ∈ B') : (answer = .ok () ∧ ∃ m, b = q.block m) ∨ ∃ old ∈ B, b.PartOf old := by
  cases h with
  | invalid _ => exact .inr ⟨b, hb, .refl b⟩
  | collision _ _ _ _ => exact .inr ⟨b, hb, .refl b⟩
  | misaligned _ _ _ _ _ => exact .inr ⟨b, hb, .refl b⟩
  | @carved old _ hv _ hold henc _ hplaces =>
    rcases hplaces.mem_or hb with hkept | ⟨c, hc, m, rfl⟩
    · exact .inr ⟨b, hkept.1, .refl b⟩
    · rcases mem_pieces.1 hc with ⟨-, rfl⟩ | rfl | ⟨-, rfl⟩
      · exact .inr ⟨old, hold, partOf_headPiece hv henc m⟩
      · exact .inl ⟨rfl, m, rfl⟩
      · exact .inr ⟨old, hold, partOf_tailPiece henc m⟩
  | settled _ _ hsettles =>
    cases hsettles with
    | @room m _ =>
      rcases hb with rfl | hkept
      · exact .inl ⟨rfl, m, rfl⟩
      · exact .inr ⟨b, hkept.1, .refl b⟩
    | full _ => exact .inr ⟨b, hb.1, .refl b⟩

/-- **A carving never fails half way.** Both cuts on a page boundary, the region is replaced by its
pieces around the request. -/
theorem carve_granted (h : s.Sound) (hv : q.Valid) (hr : s.regionAt? slot = some r)
    (henc : r.Encloses q) (hcuts : CutsOnPages s.page r q) :
    s.Obeys (fun answer B => answer = .ok () ∧
        PlacesEach s.page (s.blocks \ {r.bare}) (pieces r.bare q) B) (s.carve slot r q) := by
  have hold : r.bare ∈ s.blocks := mem_blocks_of_regionAt? hr
  have hbare : r.bare.Encloses q := henc
  have hblocks := blocks_release h hr
  have hinside := pieces_inside hv (h.valid _ hold).2 hbare
  have hhole : Hole (s.release slot).blocks r.bare.place r.bare.placeEnd := by
    rw [hblocks]
    exact h.hole hold
  have hrow : FitInRow (s.release slot).page r.bare.placeEnd r.bare.place
      (pieces r.bare q) := by
    rw [page_release]
    exact pieces_fitInRow hbare (h.offsets _ hold)
  have hfree : ∀ c ∈ pieces r.bare q, ∀ b ∈ (s.release slot).blocks, ¬ b.Meets c.region := by
    rw [hblocks]
    rintro c hc b ⟨hb, hne⟩ hmeets
    obtain ⟨-, hstart, hstop⟩ := hinside c hc
    refine hne (h.apart b hb _ hold ?_)
    simp only [Region.Meets, Region.stop, Request.region, Request.stop, Region.bare_start,
      Region.bare_size] at hmeets hstart hstop ⊢
    omega
  obtain ⟨hsound, hpage, hanswer, hplaces⟩ := reserveEach_obeys _ (sound_release h slot) hhole
    hrow (fun c hc => (hinside c hc).1) hfree (pieces_disjoint hbare)
  rw [page_release] at hpage hplaces
  rw [hblocks] at hplaces
  simp only [carve, if_pos hcuts]
  refine ⟨hsound, hpage, ?_, hplaces⟩
  rw [Step.after_answer, show pieces r q = pieces r.bare q from rfl, hanswer]

theorem carve_obeys (h : s.Sound) (hv : q.Valid) (hr : s.regionAt? slot = some r)
    (henc : r.Encloses q) : s.Obeys (Reserves s.page s.blocks q true) (s.carve slot r q) := by
  have hold : r.bare ∈ s.blocks := mem_blocks_of_regionAt? hr
  have hbare : r.bare.Encloses q := henc
  by_cases hcuts : CutsOnPages s.page r q
  · obtain ⟨hsound, hpage, hanswer, hplaces⟩ := carve_granted h hv hr henc hcuts
    refine ⟨hsound, hpage, ?_⟩
    rw [hanswer]
    exact .carved hv rfl hold hbare hcuts hplaces
  · have hlaw : Reserves s.page s.blocks q true
        (.error (.misaligned q.start q.size r.bare.start r.bare.size)) s.blocks :=
      .misaligned hv rfl hold hbare hcuts
    simp only [carve, if_neg hcuts]
    exact ⟨h, rfl, hlaw⟩

theorem covering?_eq_some {slots : List Nat} (h : s.covering? slots q = some (slot, r)) :
    slots = [slot] ∧ s.regionAt? slot = some r ∧ r.Encloses q := by
  unfold covering? at h
  split at h
  · split at h
    · cases h
    · rename_i old hold
      split at h
      · rename_i henc
        cases h
        exact ⟨rfl, hold, henc⟩
      · cases h
  · cases h

/-- Where a region covers an interval that it meets, the search for collisions finds its slot and no
other. -/
theorem touching_of_covers (h : s.Sound) {p : Region} (hp : s.regionAt? slot = some p)
    (hcov : p.Covers r) (hmeets : p.Meets r) : s.touching r = [slot] := by
  refine List.Perm.eq_singleton ?_
  rw [List.perm_ext_iff_of_nodup (touching_nodup h) (by simp)]
  intro j
  rw [List.mem_singleton, mem_touching h]
  constructor
  · rintro ⟨c, hc, hcm⟩
    have hcovb : p.bare.Covers r := hcov
    have heq :=
      h.eq_of_covers (mem_blocks_of_regionAt? hp) hcovb (mem_blocks_of_regionAt? hc) hcm
    have hstart : c.bare.start = p.bare.start := congrArg Region.start heq
    exact h.coherent.slot_unique hc hp hstart
  · rintro rfl
    exact ⟨p, hp, hmeets⟩

theorem covering?_of_encloses (hr : s.regionAt? slot = some r) (henc : r.Encloses q) :
    s.covering? [slot] q = some (slot, r) := by
  have hcov : r.Covers q.region ∧ q.size < r.size := henc
  simp only [covering?, hr, if_pos hcov]

/-- If no region of the only slot found is larger and covers the request, then none is. -/
theorem not_encloses_of_covering?_none (h : s.Sound) {slots : List Nat}
    (hslots : s.touching q.region = slots) (hnone : s.covering? slots q = none) :
    ∀ b ∈ s.blocks, b.Meets q.region → ¬ b.Encloses q := by
  rintro b ⟨i, p, hp, rfl⟩ hmeets henc
  have hone : slots = [i] := by
    rw [← hslots]
    exact touching_of_covers h hp henc.1 hmeets
  rw [hone, covering?_of_encloses hp henc] at hnone
  cases hnone

/-- **The law of reservation.** Every reservation keeps a space sound, and what it answers and
leaves follows the law. -/
theorem reserve_obeys (h : s.Sound) (q : Request) (replace : Bool) :
    s.Obeys (Reserves s.page s.blocks q replace) (s.reserve q replace) := by
  simp only [reserve]
  split
  · rename_i hv
    exact ⟨h, rfl, .invalid hv⟩
  · rename_i hv
    rw [Classical.not_not] at hv
    split
    · rename_i hnil
      have hfree := free_of_touching_nil h hnil
      obtain ⟨hsound, hpage, hlaw⟩ := settle_obeys h hv hfree
      refine ⟨hsound, hpage, .settled hv ?_ ?_⟩
      · exact fun b hb hmeets => absurd hmeets (hfree b hb)
      · rw [spared_of_free hfree]
        exact hlaw
    · rename_i slot more hslots
      split
      · rename_i hreplace
        have hin : slot ∈ s.touching q.region := by simp [hslots]
        obtain ⟨p, hp, hmeets⟩ := (mem_touching h).1 hin
        exact ⟨h, rfl, .collision hv hreplace (mem_blocks_of_regionAt? hp) hmeets⟩
      · rename_i hreplace
        rw [Bool.not_eq_false] at hreplace
        subst hreplace
        split
        · rename_i hcov
          obtain ⟨-, hold, henc⟩ := covering?_eq_some hcov
          exact carve_obeys h hv hold henc
        · rename_i hcov
          have hnot := not_encloses_of_covering?_none h hslots hcov
          have hblocks := blocks_releaseAll_touching h (q := q)
          rw [hslots] at hblocks
          have hfree : ∀ b ∈ (s.releaseAll (slot :: more)).blocks, ¬ b.Meets q.region := by
            rw [hblocks]
            exact fun b hb => hb.2
          obtain ⟨hsound, hpage, hlaw⟩ := settle_obeys (sound_releaseAll h _) hv hfree
          rw [page_releaseAll, hblocks] at hlaw
          rw [page_releaseAll] at hpage
          exact ⟨hsound, hpage, .settled hv (fun b hb hm => ⟨rfl, hnot b hb hm⟩) hlaw⟩

end Space
end Unslide
