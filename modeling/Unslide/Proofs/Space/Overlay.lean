import Mathlib.Data.List.Sort
import Unslide.Proofs.Space.Lookup
import Unslide.Proofs.Space.Reachable

/-!
# Unslide.Proofs.Space.Overlay

A space seen as a plain list of intervals, with no synthetic addresses and no slots. A reservation
lays a new interval over the list (`overlay`): an interval that encloses the new one is cut around
it, and any others that meet it are dropped whole. A look-up searches the list.

* `spans_reserve`: what a reservation does to the list, granted or refused.
* `attribution_eq`: a look-up finds what a search of the list finds.
* `refines_spans`: the list can stand for the space in any sequence of calls.
-/

namespace Unslide

/-- An interval of real addresses and what it stands for. -/
structure Span where
  start : Nat
  stop : Nat
  id : Nat
  /-- File offset of `start`. -/
  base : Nat
  deriving DecidableEq, Repr

namespace Span

def Meets (a b : Span) : Prop := a.start < b.stop ∧ b.start < a.stop

instance (a b : Span) : Decidable (a.Meets b) := inferInstanceAs (Decidable (_ ∧ _))

/-- The interval of `a` covers that of `b` and is larger. -/
def Encloses (a b : Span) : Prop :=
  (a.start ≤ b.start ∧ b.stop ≤ a.stop) ∧ b.stop - b.start < a.stop - a.start

instance (a b : Span) : Decidable (a.Encloses b) := inferInstanceAs (Decidable (_ ∧ _))

def Contains (a : Span) (addr : Nat) : Prop := a.start ≤ addr ∧ addr < a.stop

instance (a : Span) (addr : Nat) : Decidable (a.Contains addr) :=
  inferInstanceAs (Decidable (_ ∧ _))

/-- `old` cut around `new`: what is left in front, `new`, and what is left behind. -/
def cut (old new : Span) : List Span :=
  (if old.start < new.start then [{ old with stop := new.start }] else []) ++ [new] ++
    (if new.stop < old.stop then
      [⟨new.stop, old.stop, old.id, wrap (old.base + (new.stop - old.start))⟩] else [])

def Before (a b : Span) : Prop := a.start ≤ b.start

instance : DecidableRel Before := fun a b => inferInstanceAs (Decidable (a.start ≤ b.start))

end Span

def kept (spans : List Span) (new : Span) : List Span := spans.filter fun a => ¬ a.Meets new

/-- What is laid in the place of the intervals that a new one meets. -/
def laid (spans : List Span) (new : Span) : List Span :=
  match spans.filter (fun a => a.Meets new) with
  | [old] => if old.Encloses new then old.cut new else [new]
  | _ => [new]

/-- A new interval laid over the others, all in order. -/
def overlay (spans : List Span) (new : Span) : List Span :=
  (kept spans new ++ laid spans new).insertionSort Span.Before

/-- The number and file offset for an address of one of the intervals. -/
def lookUp (spans : List Span) (addr : Nat) : Option (Nat × Nat) :=
  (spans.find? fun a => a.Contains addr).map fun a => (a.id, wrap (addr - a.start + a.base))

/-- The list after a request that was granted, or refused for the given reason. A request for which
no synthetic room is left has dropped the intervals that it meets. -/
def recorded (spans : List Span) (q : Span) : Except Refusal Unit → List Span
  | .ok _ => overlay spans q
  | .error (.exhausted _ _) => kept spans q
  | .error _ => spans

def Region.span (r : Region) : Span := ⟨r.start, r.stop, r.id, r.base⟩

def Request.span (q : Request) : Span := ⟨q.start, q.stop, q.id, q.base⟩

namespace Space

def spans (s : Space) : List Span := s.regionsByStart.map Region.span

variable {s : Space} {q : Request}

theorem mem_spans (h : s.Sound) {a : Span} : a ∈ s.spans ↔ ∃ b ∈ s.blocks, b.span = a := by
  simp only [spans, List.mem_map, mem_regionsByStart h, mem_blocks_iff_live]
  constructor
  · rintro ⟨r, hr, rfl⟩
    exact ⟨r.bare, ⟨r, hr, rfl⟩, rfl⟩
  · rintro ⟨b, ⟨r, hr, rfl⟩, rfl⟩
    exact ⟨r, hr, rfl⟩

theorem spans_ascending (h : s.Sound) : s.spans.Pairwise (fun a b => a.start < b.start) := by
  rw [spans, List.pairwise_map]
  exact regionsByStart_ascending h

theorem spans_nodup (h : s.Sound) : s.spans.Nodup := by
  refine (spans_ascending h).imp ?_
  rintro a b hlt rfl
  omega

theorem span_eq_of_start_eq (h : s.Sound) {a b : Span} (ha : a ∈ s.spans) (hb : b ∈ s.spans)
    (heq : a.start = b.start) : a = b := by
  obtain ⟨c, hc, rfl⟩ := (mem_spans h).1 ha
  obtain ⟨d, hd, rfl⟩ := (mem_spans h).1 hb
  rw [h.block_eq_of_start_eq hc hd heq]

/-- A list without repetitions that has the spans of a space as members is their list once it is
put in order. -/
theorem spans_eq_insertionSort (h : s.Sound) {l : List Span} (hl : l.Nodup)
    (hmem : ∀ a, a ∈ s.spans ↔ a ∈ l) : s.spans = l.insertionSort Span.Before := by
  have hperm : s.spans.Perm l := (List.perm_ext_iff_of_nodup (spans_nodup h) hl).2 hmem
  have hasc : s.spans.Pairwise Span.Before := (spans_ascending h).imp fun hlt => Nat.le_of_lt hlt
  have : IsTrans Span Span.Before := ⟨fun _ _ _ hab hbc => Nat.le_trans hab hbc⟩
  have : Std.Total Span.Before := ⟨fun a b => Nat.le_total a.start b.start⟩
  refine List.Perm.eq_of_pairwise ?_ hasc (List.pairwise_insertionSort _ l)
    (hperm.trans (List.perm_insertionSort _ l).symm)
  intro a b ha hb hab hba
  rw [List.mem_insertionSort, ← hmem] at hb
  exact span_eq_of_start_eq h ha hb (Nat.le_antisymm hab hba)

/-! ## What a reservation lays over the list -/

theorem mem_kept (h : s.Sound) {a : Span} :
    a ∈ kept s.spans q.span ↔ ∃ b ∈ spared s.blocks q, b.span = a := by
  simp only [kept, List.mem_filter, mem_spans h, decide_eq_true_eq]
  constructor
  · rintro ⟨⟨b, hb, rfl⟩, hfree⟩
    exact ⟨b, ⟨hb, hfree⟩, rfl⟩
  · rintro ⟨b, ⟨hb, hfree⟩, rfl⟩
    exact ⟨⟨b, hb, rfl⟩, hfree⟩

theorem encloses_span {b : Region} : b.span.Encloses q.span ↔ b.Encloses q := by
  simp only [Span.Encloses, Region.Encloses, Region.Covers, Region.span, Request.span,
    Request.region, Request.stop, Region.stop]
  omega

/-- An interval that encloses the new one is the only one that meets it. -/
theorem filter_meets_of_encloses (h : s.Sound) (hv : q.Valid) {old : Region} (hold : old ∈ s.blocks)
    (henc : old.Encloses q) : (s.spans.filter fun a => a.Meets q.span) = [old.span] := by
  have hmeets : old.Meets q.region := meets_of_encloses hv henc
  refine List.Perm.eq_singleton ?_
  rw [List.perm_ext_iff_of_nodup ((spans_nodup h).filter _) (List.nodup_singleton _)]
  intro a
  simp only [List.mem_filter, mem_spans h, decide_eq_true_eq, List.mem_singleton]
  constructor
  · rintro ⟨⟨b, hb, rfl⟩, hb'⟩
    rw [h.eq_of_encloses hold henc hb hb']
  · rintro rfl
    exact ⟨⟨old, hold, rfl⟩, hmeets⟩

theorem laid_of_encloses (h : s.Sound) (hv : q.Valid) {old : Region} (hold : old ∈ s.blocks)
    (henc : old.Encloses q) : laid s.spans q.span = old.span.cut q.span := by
  simp only [laid, filter_meets_of_encloses h hv hold henc, encloses_span.2 henc, if_true]

theorem laid_of_not_encloses (h : s.Sound)
    (hnot : ∀ b ∈ s.blocks, b.Meets q.region → ¬ b.Encloses q) :
    laid s.spans q.span = [q.span] := by
  simp only [laid]
  split
  · rename_i old hfilter
    have hin : old ∈ s.spans.filter fun a => a.Meets q.span := by simp [hfilter]
    simp only [List.mem_filter, mem_spans h, decide_eq_true_eq] at hin
    obtain ⟨⟨b, hb, rfl⟩, hmeets⟩ := hin
    rw [if_neg fun henc => hnot b hb hmeets (encloses_span.1 henc)]
  · rfl

/-- The pieces of a carved region are the intervals that its interval is cut into. -/
theorem span_pieces {old : Region} (henc : old.Encloses q) :
    (pieces old q).map Request.span = old.span.cut q.span := by
  obtain ⟨⟨hstart, hstop⟩, -⟩ := henc
  simp only [Region.stop, Request.region] at hstart hstop
  have hhead : (headPiece old q).span = { old.span with stop := q.span.start } := by
    have hend : old.start + (q.start - old.start) = q.start := by omega
    simp only [headPiece, Request.span, Request.stop, Region.span, hend]
  have htail : (tailPiece old q).span = ⟨q.span.stop, old.span.stop, old.span.id,
      wrap (old.span.base + (q.span.stop - old.span.start))⟩ := by
    have hend : q.start + q.size + (old.start + old.size - (q.start + q.size)) =
        old.start + old.size := by omega
    have hoff : q.start - old.start + q.size = q.start + q.size - old.start := by omega
    simp only [tailPiece, Request.span, Request.stop, Region.span, Region.stop, hend, hoff]
  have hcut : old.span.cut q.span =
      (if 0 < q.start - old.start then [(headPiece old q).span] else []) ++ [q.span] ++
        (if 0 < old.stop - q.stop then [(tailPiece old q).span] else []) := by
    simp only [Span.cut, hhead, htail, Nat.sub_pos_iff_lt]
    rfl
  rw [hcut, pieces, headPiece, tailPiece]
  split <;> split <;> rfl

theorem span_of_placesEach {page : Nat} {B B' : Set Region} {qs : List Request}
    (h : PlacesEach page B qs B') (a : Span) :
    (∃ b ∈ B', b.span = a) ↔ (∃ b ∈ B, b.span = a) ∨ a ∈ qs.map Request.span := by
  induction h with
  | nil => simp
  | @cons B B' q rest m _ _ ih =>
    have hblock : (q.block m).span = q.span := rfl
    rw [ih, List.map_cons, List.mem_cons]
    simp only [Set.mem_insert_iff, or_and_right, exists_or, exists_eq_left, hblock,
      eq_comm (a := a)]
    rw [or_comm (a := q.span = a), or_assoc]

theorem mem_cut {old new a : Span} (ha : a ∈ old.cut new) :
    a = new ∨ a = { old with stop := new.start } ∧ old.start < new.start ∨
      (a.start = new.stop ∧ a.stop = old.stop) ∧ new.stop < old.stop := by
  simp only [Span.cut, List.mem_append, List.mem_singleton] at ha
  rcases ha with (ha | rfl) | ha
  · split at ha
    · exact .inr (.inl ⟨List.mem_singleton.1 ha, ‹_›⟩)
    · cases ha
  · exact .inl rfl
  · split at ha
    · rw [List.mem_singleton.1 ha]
      exact .inr (.inr ⟨⟨rfl, rfl⟩, ‹_›⟩)
    · cases ha

/-- Every interval laid is the new one, or a part of an old one that meets it. -/
theorem mem_laid {l : List Span} {a new : Span} (ha : a ∈ laid l new) :
    a = new ∨ ∃ old ∈ l, old.Meets new ∧
      old.start ≤ a.start ∧ a.start < a.stop ∧ a.stop ≤ old.stop := by
  simp only [laid] at ha
  split at ha
  · rename_i old hfilter
    have hin : old ∈ l.filter fun a => a.Meets new := by simp [hfilter]
    simp only [List.mem_filter, decide_eq_true_eq] at hin
    split at ha
    · rename_i henc
      obtain ⟨⟨hstart, hstop⟩, -⟩ := henc
      have hmeets := hin.2
      simp only [Span.Meets] at hmeets
      rcases mem_cut ha with rfl | ⟨rfl, hlt⟩ | ⟨⟨hs, ht⟩, hlt⟩
      · exact .inl rfl
      · exact .inr ⟨old, hin.1, hin.2, Nat.le_refl _, hlt, by simp only; omega⟩
      · exact .inr ⟨old, hin.1, hin.2, by omega⟩
    · exact .inl (List.mem_singleton.1 ha)
  · exact .inl (List.mem_singleton.1 ha)

theorem cut_nodup {old new : Span} (henc : old.Encloses new) (hnew : new.start < new.stop) :
    (old.cut new).Nodup := by
  obtain ⟨⟨hstart, hstop⟩, -⟩ := henc
  have hasc : (old.cut new).Pairwise fun a b => a.start < b.start := by
    simp only [Span.cut]
    split <;> split <;> simp <;> omega
  refine hasc.imp ?_
  rintro a b hlt rfl
  omega

theorem laid_nodup {l : List Span} {new : Span} (hnew : new.start < new.stop) :
    (laid l new).Nodup := by
  simp only [laid]
  split
  · split
    · rename_i henc
      exact cut_nodup henc hnew
    · exact List.nodup_singleton _
  · exact List.nodup_singleton _

theorem span_eq_of_meets (h : s.Sound) {a b : Span} (ha : a ∈ s.spans) (hb : b ∈ s.spans)
    (hmeets : a.Meets b) : a = b := by
  obtain ⟨c, hc, rfl⟩ := (mem_spans h).1 ha
  obtain ⟨d, hd, rfl⟩ := (mem_spans h).1 hb
  rw [h.apart c hc d hd hmeets]

theorem kept_append_laid_nodup (h : s.Sound) {new : Span} (hnew : new.start < new.stop) :
    (kept s.spans new ++ laid s.spans new).Nodup := by
  refine List.nodup_append.2 ⟨(spans_nodup h).filter _, laid_nodup hnew, ?_⟩
  rintro a ha b hb rfl
  simp only [kept, List.mem_filter, decide_eq_true_eq] at ha
  obtain ⟨hin, hfree⟩ := ha
  rcases mem_laid hb with rfl | ⟨old, hold, hmeets, hpart⟩
  · exact hfree ⟨hnew, hnew⟩
  · have hold' : old.Meets a := by
      simp only [Span.Meets]
      omega
    rw [span_eq_of_meets h hold hin hold'] at hmeets
    exact hfree hmeets

theorem spans_eq_overlay (h : s.Sound) {t : Space} (ht : t.Sound) (hv : q.Valid)
    (hmem : ∀ a, (∃ b ∈ t.blocks, b.span = a) ↔
      (∃ b ∈ spared s.blocks q, b.span = a) ∨ a ∈ laid s.spans q.span) :
    t.spans = overlay s.spans q.span := by
  have hpos : q.span.start < q.span.stop :=
    Nat.lt_add_of_pos_right (Nat.pos_of_ne_zero hv.1)
  refine spans_eq_insertionSort ht (kept_append_laid_nodup h hpos) ?_
  intro a
  rw [mem_spans ht, List.mem_append, mem_kept h]
  exact hmem a

theorem spans_eq_of_ascending (h : s.Sound) {l : List Span}
    (hl : l.Pairwise fun a b => a.start < b.start)
    (hmem : ∀ a, (∃ b ∈ s.blocks, b.span = a) ↔ a ∈ l) :
    s.spans = l := by
  have hnodup : l.Nodup := by
    refine hl.imp ?_
    rintro a b hlt rfl
    omega
  have hsorted : l.Pairwise Span.Before := hl.imp fun hlt => Nat.le_of_lt hlt
  rw [spans_eq_insertionSort h hnodup fun a => (mem_spans h).trans (hmem a)]
  exact hsorted.insertionSort_eq

theorem spans_reserve (h : s.Sound) (q : Request) (replace : Bool) :
    (s.reserve q replace).state.spans =
      recorded s.spans q.span (s.reserve q replace).answer := by
  obtain ⟨ht, -, hlaw⟩ := reserve_obeys h q replace
  generalize s.reserve q replace = step at ht hlaw
  obtain ⟨t, answer, notes⟩ := step
  simp only at ht hlaw ⊢
  have hsame : t.blocks = s.blocks → t.spans = s.spans := by
    intro hblocks
    refine spans_eq_of_ascending ht (spans_ascending h) ?_
    rw [hblocks]
    exact fun a => (mem_spans h).symm
  generalize hblocks : t.blocks = B at hlaw
  cases hlaw with
  | invalid _ => exact hsame hblocks
  | collision _ _ _ _ => exact hsame hblocks
  | misaligned _ _ _ _ _ => exact hsame hblocks
  | carved hv _ hold henc _ hplaces =>
    refine spans_eq_overlay h ht hv ?_
    intro a
    rw [hblocks, span_of_placesEach hplaces, span_pieces henc, laid_of_encloses h hv hold henc,
      spared_of_encloses h hv hold henc]
  | settled hv hmeets hsettles =>
    cases hsettles with
    | room _ =>
      refine spans_eq_overlay h ht hv ?_
      intro a
      rw [hblocks, laid_of_not_encloses h fun b hb hm => (hmeets b hb hm).2, List.mem_singleton]
      simp only [Set.mem_insert_iff, or_and_right, exists_or, exists_eq_left]
      rw [or_comm, eq_comm (a := a)]
      rfl
    | full _ =>
      refine spans_eq_of_ascending ht ((spans_ascending h).filter _) ?_
      intro a
      rw [hblocks, ← mem_kept h]
      rfl

/-! ## What a look-up finds -/

/-- A look-up of an address in a space finds what a search of the list finds. -/
theorem attribution_eq (h : s.Sound) (addr : Nat) : s.attribution addr = lookUp s.spans addr := by
  simp only [lookUp]
  cases hfind : s.spans.find? fun a => a.Contains addr with
  | none =>
    rw [List.find?_eq_none] at hfind
    refine attribution_of_free h ?_
    intro b hb hc
    exact hfind b.span ((mem_spans h).2 ⟨b, hb, rfl⟩) (decide_eq_true hc)
  | some a =>
    have hc : a.Contains addr := by simpa using List.find?_some hfind
    obtain ⟨b, hb, rfl⟩ := (mem_spans h).1 (List.mem_of_find?_eq_some hfind)
    exact attribution_of_contains h hb hc

/-! ## Sequences of calls -/

inductive Call where
  | reserve (q : Request) (replace : Bool)
  | setPage (alignment : Nat)

def perform (s : Space) : Call → Space
  | .reserve q replace => (s.reserve q replace).state
  | .setPage alignment => (s.setPage alignment).state

def performAll (s : Space) (calls : List Call) : Space := calls.foldl perform s

/-- The list after a call that the space answers. -/
def record (s : Space) (l : List Span) : Call → List Span
  | .reserve q replace => recorded l q.span (s.reserve q replace).answer
  | .setPage _ => l

/-- The list after a sequence of calls. Of the space it takes the answers only. -/
def recordAll (s : Space) (l : List Span) : List Call → List Span
  | [] => l
  | c :: rest => recordAll (s.perform c) (s.record l c) rest

theorem reachable_perform (h : s.Reachable) (c : Call) : (s.perform c).Reachable := by
  cases c with
  | reserve q replace => exact h.reserve q replace
  | setPage alignment => exact h.setPage alignment

theorem spans_setPage (s : Space) (alignment : Nat) :
    (s.setPage alignment).state.spans = s.spans := by
  simp only [setPage]
  split <;> rfl

theorem spans_perform (h : s.Sound) (c : Call) : (s.perform c).spans = s.record s.spans c := by
  cases c with
  | reserve q replace => exact spans_reserve h q replace
  | setPage alignment => exact spans_setPage s alignment

theorem spans_performAll (h : s.Reachable) (calls : List Call) :
    (s.performAll calls).Reachable ∧ (s.performAll calls).spans = s.recordAll s.spans calls := by
  induction calls generalizing s with
  | nil => exact ⟨h, rfl⟩
  | cons c rest ih =>
    have hnext := ih (reachable_perform h c)
    rw [spans_perform (sound_of_reachable h)] at hnext
    exact hnext

/-- **A space is the list of its intervals.** A reservation that is granted lays the new interval
over the list; and whatever calls a space has been through, a look-up in it finds what a search of
the list finds that was kept beside it. -/
theorem refines_spans (h : s.Reachable) :
    (∀ q replace, (s.reserve q replace).answer = .ok () →
      (s.reserve q replace).state.spans = overlay s.spans q.span) ∧
    (∀ addr, s.attribution addr = lookUp s.spans addr) ∧
    ∀ calls addr,
      (s.performAll calls).attribution addr = lookUp (s.recordAll s.spans calls) addr := by
  have hs := sound_of_reachable h
  refine ⟨?_, attribution_eq hs, ?_⟩
  · intro q replace hok
    rw [spans_reserve hs, hok]
    rfl
  · intro calls addr
    obtain ⟨hreach, hspans⟩ := spans_performAll h calls
    rw [attribution_eq (sound_of_reachable hreach), hspans]

/-- The middle page of a region of three is taken: the list is cut in three, and addresses behind
the cut keep their offset. -/
theorem refines_spans_carved :
    let s := ((aligned 4096).reserve ⟨0x10000, 0x3000, 1, 0x7000⟩ false).state
    s.Reachable ∧ (s.reserve ⟨0x11000, 0x1000, 2, 0⟩ true).answer = .ok () ∧
      (s.reserve ⟨0x11000, 0x1000, 2, 0⟩ true).state.spans =
        [⟨0x10000, 0x11000, 1, 0x7000⟩, ⟨0x11000, 0x12000, 2, 0⟩, ⟨0x12000, 0x13000, 1, 0x9000⟩] ∧
      (s.reserve ⟨0x11000, 0x1000, 2, 0⟩ true).state.attribution 0x12010 = some (1, 0x9010) := by
  have h := Reachable.reserve ⟨0x10000, 0x3000, 1, 0x7000⟩ false (.aligned 4096)
  refine ⟨h, by decide, ?_, ?_⟩
  · rw [(refines_spans h).1 _ _ (by decide)]
    decide
  · have hfound := (refines_spans h).2.2 [.reserve ⟨0x11000, 0x1000, 2, 0⟩ true] 0x12010
    exact hfound.trans (by decide)

end Space
end Unslide
