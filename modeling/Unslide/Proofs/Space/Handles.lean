import Unslide.Proofs.Space.Overlay

/-!
# Unslide.Proofs.Space.Handles

How long a handle answers, and for which region. What a sequence of calls inserts and removes is
written down as a `journal`, told from the calls, their answers and the list of intervals alone.
The age of a space counts its entries (`age_performAll`), so a handle answers as long as nothing was
added to the journal, and as the region that it was taken on; that a vacant slot is used again makes
no difference.

* `counted_reserve`: a reservation moves the age by what it inserts and removes, and if that is
  nothing, it changes nothing at all.
* `replay_journal`: the journal leads from the intervals before to those behind.
* `serves_of_locate?`: what a handle answers in every later state.
-/

namespace Unslide

/-- An interval that came or went. -/
inductive Edit where
  | inserted (a : Span)
  | removed (a : Span)
  deriving DecidableEq, Repr

def Edit.apply (spans : List Span) : Edit → List Span
  | .inserted a => a :: spans
  | .removed a => spans.erase a

def replay (spans : List Span) (edits : List Edit) : List Span := edits.foldl Edit.apply spans

/-- The intervals that a new one meets. -/
def met (spans : List Span) (new : Span) : List Span := spans.filter fun a => a.Meets new

/-- What a request inserts and removes that was granted, or refused for the given reason. -/
def edits (spans : List Span) (q : Span) : Except Refusal Unit → List Edit
  | .ok _ => (met spans q).map .removed ++ (laid spans q).map .inserted
  | .error (.exhausted _ _) => (met spans q).map .removed
  | .error _ => []

namespace Space

def editsOf (s : Space) : Call → List Edit
  | .reserve q replace => edits s.spans q.span (s.reserve q replace).answer
  | .setPage _ => []

/-- What a sequence of calls inserts and removes. -/
def journal (s : Space) : List Call → List Edit
  | [] => []
  | c :: rest => s.editsOf c ++ (s.perform c).journal rest

variable {s : Space} {q : Request} {slot : Nat} {r : Region}

theorem journal_append (s : Space) (calls more : List Call) :
    s.journal (calls ++ more) = s.journal calls ++ (s.performAll calls).journal more := by
  induction calls generalizing s with
  | nil => rfl
  | cons c rest ih =>
    simp only [List.cons_append, journal, ih, List.append_assoc]
    rfl

/-! ## The age counts insertions and removals -/

theorem age_store (s : Space) (r : Region) : (s.store r).age = s.age + 1 := by
  unfold store
  split <;> rfl

theorem age_release (hr : s.regionAt? slot = some r) : (s.release slot).age = s.age + 1 := by
  simp only [release, hr]
  split <;> rfl

/-- When a region leaves its slot, the others are still live. -/
theorem live_release {rest : List Nat} (hnodup : (slot :: rest).Nodup)
    (hlive : ∀ i ∈ slot :: rest, ∃ r, s.regionAt? i = some r) :
    ∀ i ∈ rest, ∃ r, (s.release slot).regionAt? i = some r := by
  intro i hi
  have hne : i ≠ slot := by
    intro heq
    exact (List.nodup_cons.1 hnodup).1 (heq ▸ hi)
  obtain ⟨r, hr⟩ := hlive i (List.mem_cons_of_mem _ hi)
  have hkept := blockAt?_release_of_ne s hne
  rw [blockAt?, blockAt?, hr, Option.map_some, Option.map_eq_some_iff] at hkept
  obtain ⟨p, hp, -⟩ := hkept
  exact ⟨p, hp⟩

theorem age_releaseAll {slots : List Nat} (hnodup : slots.Nodup)
    (hlive : ∀ i ∈ slots, ∃ r, s.regionAt? i = some r) :
    (s.releaseAll slots).age = s.age + slots.length := by
  induction slots generalizing s with
  | nil => rfl
  | cons slot rest ih =>
    obtain ⟨r, hr⟩ := hlive slot List.mem_cons_self
    rw [show s.releaseAll (slot :: rest) = (s.release slot).releaseAll rest from rfl,
      ih (List.nodup_cons.1 hnodup).2 (live_release hnodup hlive), age_release hr,
      List.length_cons]
    omega

theorem age_settle_of_ok (h : (s.settle r).answer = .ok ()) :
    (s.settle r).state.age = s.age + 1 := by
  revert h
  simp only [settle]
  split
  · simp
  · split
    · intro _
      exact age_store _ _
    · split
      · intro _
        exact age_store _ _
      · split
        · simp
        · intro _
          exact age_store _ _

/-- Placement is refused for one reason only. -/
theorem answer_settle (s : Space) (r : Region) :
    (s.settle r).answer = .ok () ∨ (s.settle r).answer = .error (.exhausted r.start r.size) := by
  simp only [settle]
  split
  · exact .inr rfl
  · split
    · exact .inl rfl
    · split
      · exact .inl rfl
      · split
        · exact .inr rfl
        · exact .inl rfl

theorem age_reserveFree_of_ok (h : (s.reserveFree q).answer = .ok ()) :
    (s.reserveFree q).state.age = s.age + 1 := by
  revert h
  simp only [reserveFree]
  split
  · simp
  · split
    · exact age_settle_of_ok
    · simp

theorem age_reserveEach_of_ok {qs : List Request} (h : (s.reserveEach qs).answer = .ok ()) :
    (s.reserveEach qs).state.age = s.age + qs.length := by
  induction qs generalizing s with
  | nil => rfl
  | cons q rest ih =>
    simp only [reserveEach] at h ⊢
    cases hfirst : (s.reserveFree q).answer with
    | error e =>
      rw [hfirst] at h
      cases h
    | ok _ =>
      rw [hfirst] at h
      simp only [Step.after_answer, Step.after_state] at h ⊢
      rw [ih h, age_reserveFree_of_ok hfirst, List.length_cons]
      omega

theorem age_carve_of_ok (hr : s.regionAt? slot = some r) (h : (s.carve slot r q).answer = .ok ()) :
    (s.carve slot r q).state.age = s.age + 1 + (pieces r q).length := by
  revert h
  simp only [carve]
  split
  · simp only [Step.after_answer, Step.after_state]
    intro h
    rw [age_reserveEach_of_ok h, age_release hr]
  · simp

theorem age_le_settle (s : Space) (r : Region) : s.age ≤ (s.settle r).state.age := by
  cases answer_settle s r with
  | inl hok =>
    rw [age_settle_of_ok hok]
    exact Nat.le_add_right _ _
  | inr herror => rw [state_settle_of_error herror]

theorem age_le_reserveFree (s : Space) (q : Request) : s.age ≤ (s.reserveFree q).state.age := by
  simp only [reserveFree]
  split
  · exact Nat.le_refl _
  · split
    · exact age_le_settle s q.region
    · exact Nat.le_refl _

theorem age_le_reserveEach (s : Space) (qs : List Request) :
    s.age ≤ (s.reserveEach qs).state.age := by
  induction qs generalizing s with
  | nil => exact Nat.le_refl _
  | cons q rest ih =>
    have hfirst := age_le_reserveFree s q
    simp only [reserveEach]
    split
    · exact hfirst
    · exact Nat.le_trans hfirst (ih _)

/-! ## What a reservation inserts and removes -/

/-- The search for collisions finds as many regions as there are intervals met. -/
theorem length_met (h : s.Sound) (q : Request) :
    (met s.spans q.span).length = (s.touching q.region).length := by
  have hmeets : ∀ p : Region, p.span.Meets q.span ↔ p.Meets q.region := fun _ => Iff.rfl
  have hcount : ∀ slots : List Nat,
      (met ((slots.filterMap s.regionAt?).map Region.span) q.span).length =
        (slots.filter fun i => (s.regionAt? i).any fun p => p.Meets q.region).length := by
    intro slots
    induction slots with
    | nil => rfl
    | cons i rest ih =>
      cases hi : s.regionAt? i with
      | none => simpa [met, hi] using ih
      | some p =>
        by_cases hp : p.Meets q.region <;> simpa [met, hi, hmeets, hp] using ih
  have hperm : (s.byStart.values.filter
      fun i => (s.regionAt? i).any fun p => p.Meets q.region).Perm (s.touching q.region) := by
    refine (List.perm_ext_iff_of_nodup ?_ (touching_nodup h)).2 ?_
    · exact h.coherent.byStart.values_nodup.filter _
    · intro i
      rw [mem_touching h, List.mem_filter, Option.any_eq_true]
      simp only [decide_eq_true_eq]
      constructor
      · rintro ⟨-, p, hp, hpm⟩
        exact ⟨p, hp, hpm⟩
      · rintro ⟨p, hp, hpm⟩
        refine ⟨?_, p, hp, hpm⟩
        exact Index.mem_values.2 ⟨p.start, (h.coherent.byStart _ _).2 ⟨p, hp, rfl⟩⟩
  rw [spans, regionsByStart, hcount, hperm.length_eq]

theorem edits_ok (l : List Span) (q : Span) :
    edits l q (.ok ()) = (met l q).map .removed ++ (laid l q).map .inserted := rfl

theorem edits_exhausted (l : List Span) (q : Span) (start size : Nat) :
    edits l q (.error (.exhausted start size)) = (met l q).map .removed := rfl

/-- What a reservation that was placed without a carving inserts and removes: as much as it found
in its way, and itself. -/
theorem length_edits_of_not_encloses (h : s.Sound)
    (hnot : ∀ b ∈ s.blocks, b.Meets q.region → ¬ b.Encloses q) :
    (edits s.spans q.span (.ok ())).length = (s.touching q.region).length + 1 := by
  rw [edits_ok, laid_of_not_encloses h hnot, List.length_append, List.length_map, length_met h]
  rfl

theorem length_edits_of_encloses (h : s.Sound) (hv : q.Valid) {old : Region} (hold : old ∈ s.blocks)
    (henc : old.Encloses q) :
    (edits s.spans q.span (.ok ())).length = 1 + (pieces old q).length := by
  have hlaid : (laid s.spans q.span).length = (pieces old q).length := by
    rw [laid_of_encloses h hv hold henc, ← span_pieces henc, List.length_map]
  rw [edits_ok, met, filter_meets_of_encloses h hv hold henc, List.length_append, List.length_map,
    List.length_map, hlaid]
  rfl

/-- What an operation moves the age by, and that it changes nothing if that is nothing. -/
structure Counted (s : Space) (edits : List Edit) (t : Space) : Prop where
  age : t.age = s.age + edits.length
  same : edits = [] → t = s

theorem Counted.refl (s : Space) : s.Counted [] s := ⟨rfl, fun _ => rfl⟩

theorem Counted.of_ne_nil {edits : List Edit} {t : Space} (hage : t.age = s.age + edits.length)
    (hne : 0 < edits.length) : s.Counted edits t :=
  ⟨hage, fun hnil => by simp [hnil] at hne⟩

theorem counted_settle (h : s.Sound) (hnil : s.touching q.region = []) :
    s.Counted (edits s.spans q.span (s.settle q.region).answer) (s.settle q.region).state := by
  have hfree := free_of_touching_nil h hnil
  rcases answer_settle s q.region with hok | hfull
  · have hlength := length_edits_of_not_encloses h (q := q) fun b hb hm => absurd hm (hfree b hb)
    rw [hnil] at hlength
    rw [hok]
    refine .of_ne_nil ?_ ?_
    · rw [age_settle_of_ok hok, hlength]
      rfl
    · rw [hlength]
      exact Nat.succ_pos _
  · have hmet : met s.spans q.span = [] := by
      rw [← List.length_eq_zero_iff, length_met h, hnil]
      rfl
    rw [hfull, state_settle_of_error hfull, edits_exhausted, hmet]
    exact .refl s

theorem counted_carve (h : s.Sound) (hv : q.Valid) (hr : s.regionAt? slot = some r)
    (henc : r.Encloses q) :
    s.Counted (edits s.spans q.span (s.carve slot r q).answer) (s.carve slot r q).state := by
  have hold : r.bare ∈ s.blocks := mem_blocks_of_regionAt? hr
  by_cases hcuts : CutsOnPages s.page r q
  · have hok := (carve_granted h hv hr henc hcuts).law.1
    have hlength := length_edits_of_encloses h hv hold (show r.bare.Encloses q from henc)
    rw [hok]
    refine .of_ne_nil ?_ ?_
    · rw [age_carve_of_ok hr hok, hlength, show pieces r.bare q = pieces r q from rfl]
      omega
    · omega
  · have hkeep : s.carve slot r q = ⟨s, .error (.misaligned q.start q.size r.start r.size), []⟩ := by
      simp only [carve, if_neg hcuts]
    rw [hkeep]
    exact .refl s

theorem counted_evict (h : s.Sound) {more : List Nat} (hslots : s.touching q.region = slot :: more)
    (hnot : ∀ b ∈ s.blocks, b.Meets q.region → ¬ b.Encloses q) :
    s.Counted (edits s.spans q.span ((s.releaseAll (slot :: more)).settle q.region).answer)
      ((s.releaseAll (slot :: more)).settle q.region).state := by
  have hage : (s.releaseAll (slot :: more)).age = s.age + (slot :: more).length := by
    rw [← hslots]
    exact age_releaseAll (touching_nodup h) fun _ => exists_of_mem_touching h
  have hmet := length_met h q
  rw [hslots] at hmet
  rcases answer_settle (s.releaseAll (slot :: more)) q.region with hok | hfull
  · have hlength := length_edits_of_not_encloses h hnot
    rw [hslots] at hlength
    rw [hok]
    refine .of_ne_nil ?_ (by omega)
    rw [age_settle_of_ok hok, hage, hlength]
    omega
  · rw [hfull, state_settle_of_error hfull, edits_exhausted]
    refine .of_ne_nil ?_ ?_
    · rw [List.length_map, hage, hmet]
    · rw [List.length_map, hmet]
      exact Nat.succ_pos _

/-- A reservation moves the age by what it inserts and removes, and if that is nothing, it leaves
the space as it was. -/
theorem counted_reserve (h : s.Sound) (q : Request) (replace : Bool) :
    s.Counted (s.editsOf (.reserve q replace)) (s.reserve q replace).state := by
  simp only [editsOf, reserve]
  split
  · exact .refl s
  · rename_i hv
    rw [Classical.not_not] at hv
    split
    · rename_i hnil
      exact counted_settle h hnil
    · rename_i slot more hslots
      split
      · exact .refl s
      · split
        · rename_i hcov
          obtain ⟨-, hold, henc⟩ := covering?_eq_some hcov
          exact counted_carve h hv hold henc
        · rename_i hcov
          exact counted_evict h hslots (not_encloses_of_covering?_none h hslots hcov)

/-! ## The journal leads from one list of intervals to the next -/

theorem replay_append (l : List Span) (before behind : List Edit) :
    replay l (before ++ behind) = replay (replay l before) behind := List.foldl_append ..

theorem replay_perm {l m : List Span} (h : l.Perm m) (edits : List Edit) :
    (replay l edits).Perm (replay m edits) := by
  induction edits generalizing l m with
  | nil => exact h
  | cons e rest ih =>
    cases e with
    | inserted a => exact ih (h.cons a)
    | removed a => exact ih (h.erase a)

theorem replay_inserted (l spans : List Span) :
    (replay l (spans.map .inserted)).Perm (l ++ spans) := by
  induction spans generalizing l with
  | nil => simp [replay]
  | cons a rest ih =>
    have hstep := ih (a :: l)
    exact hstep.trans List.perm_middle.symm

theorem replay_removed (l spans : List Span) : replay l (spans.map .removed) = l.diff spans := by
  rw [List.diff_eq_foldl, replay, List.foldl_map]
  rfl

theorem replay_removed_met {l : List Span} (hl : l.Nodup) (q : Span) :
    replay l ((met l q).map .removed) = kept l q := by
  rw [replay_removed, hl.sdiff_eq_filter, kept]
  refine List.filter_congr ?_
  intro a ha
  simp [met, ha]

theorem replay_edits {l : List Span} (hl : l.Nodup) (q : Span) (answer : Except Refusal Unit) :
    (replay l (edits l q answer)).Perm (recorded l q answer) := by
  cases answer with
  | ok _ =>
    simp only [edits, recorded, overlay, replay_append, replay_removed_met hl]
    exact (replay_inserted _ _).trans (List.perm_insertionSort _ _).symm
  | error e =>
    cases e with
    | exhausted _ _ => simp only [edits, recorded, replay_removed_met hl, List.Perm.refl]
    | invalid _ _ => exact .refl l
    | collision _ _ => exact .refl l
    | misaligned _ _ _ _ => exact .refl l

theorem replay_editsOf (h : s.Sound) (c : Call) :
    (replay s.spans (s.editsOf c)).Perm (s.perform c).spans := by
  rw [spans_perform h]
  cases c with
  | reserve q replace => exact replay_edits (spans_nodup h) _ _
  | setPage _ => exact .refl _

theorem replay_journal (h : s.Reachable) (calls : List Call) :
    (replay s.spans (s.journal calls)).Perm (s.performAll calls).spans := by
  induction calls generalizing s with
  | nil => exact .refl _
  | cons c rest ih =>
    rw [journal, replay_append]
    exact (replay_perm (replay_editsOf (sound_of_reachable h) c) _).trans
      (ih (reachable_perform h c))

/-! ## Runs -/

theorem age_perform (h : s.Sound) (c : Call) :
    (s.perform c).age = s.age + (s.editsOf c).length := by
  cases c with
  | reserve q replace => exact (counted_reserve h q replace).age
  | setPage alignment =>
    simp only [perform, setPage]
    split <;> rfl

theorem regionAt?_perform (h : s.Sound) {c : Call} (hnil : s.editsOf c = []) (slot : Nat) :
    (s.perform c).regionAt? slot = s.regionAt? slot := by
  cases c with
  | reserve q replace =>
    rw [show s.perform (.reserve q replace) = s from (counted_reserve h q replace).same hnil]
  | setPage alignment =>
    simp only [perform, setPage]
    split <;> rfl

theorem age_performAll (h : s.Reachable) (calls : List Call) :
    (s.performAll calls).age = s.age + (s.journal calls).length := by
  induction calls generalizing s with
  | nil => rfl
  | cons c rest ih =>
    rw [show s.performAll (c :: rest) = (s.perform c).performAll rest from rfl,
      ih (reachable_perform h c), age_perform (sound_of_reachable h), journal, List.length_append,
      Nat.add_assoc]

theorem regionAt?_performAll (h : s.Reachable) {calls : List Call} (hnil : s.journal calls = [])
    (slot : Nat) : (s.performAll calls).regionAt? slot = s.regionAt? slot := by
  induction calls generalizing s with
  | nil => rfl
  | cons c rest ih =>
    rw [journal, List.append_eq_nil_iff] at hnil
    rw [show s.performAll (c :: rest) = (s.perform c).performAll rest from rfl,
      ih (reachable_perform h c) hnil.2, regionAt?_perform (sound_of_reachable h) hnil.1]

theorem reachable_performAll (h : s.Reachable) (calls : List Call) :
    (s.performAll calls).Reachable := (spans_performAll h calls).1

/-- A refused reservation that leaves the intervals as they were removed nothing. -/
theorem editsOf_eq_nil (h : s.Sound) {replace : Bool} {e : Refusal}
    (hrefused : (s.reserve q replace).answer = .error e)
    (hspans : (s.reserve q replace).state.spans = s.spans) :
    s.editsOf (.reserve q replace) = [] := by
  rw [spans_reserve h, hrefused] at hspans
  simp only [editsOf, hrefused]
  cases e with
  | exhausted _ _ =>
    simp only [recorded, kept, List.filter_eq_self] at hspans
    rw [edits_exhausted, List.map_eq_nil_iff, met, List.filter_eq_nil_iff]
    intro a ha
    simpa using hspans a ha
  | invalid _ _ => rfl
  | collision _ _ => rfl
  | misaligned _ _ _ _ => rfl

/-! ## Handles -/

theorem attribute?_eq_some_iff {addr : Nat} {handle : Handle} {found : Nat × Nat} :
    s.attribute? addr handle = some found ↔ handle.age = s.age ∧
      ∃ r, s.regionAt? handle.slot = some r ∧ r.Contains addr ∧
        found = (r.id, r.fileOffset addr) := by
  simp only [attribute?]
  split
  · simp [*]
  · rename_i hage
    rw [ne_eq, Classical.not_not] at hage
    cases hr : s.regionAt? handle.slot with
    | none => simp
    | some r =>
      by_cases hc : r.Contains addr
      · simp [hage, hc, eq_comm]
      · simp [hc]

/-- What a handle that was taken on the region `r` of `s` answers in the states behind. -/
structure Serves (s : Space) (handle : Handle) (r : Region) : Prop where
  /-- It answers as long as nothing came or went, for the addresses of its region. -/
  answers : ∀ calls addr found, (s.performAll calls).attribute? addr handle = some found ↔
    s.journal calls = [] ∧ r.Contains addr ∧ found = (r.id, wrap (addr - r.start + r.base))
  /-- A refused reservation that removed nothing changes no answer. -/
  refused : ∀ calls q replace e, ((s.performAll calls).reserve q replace).answer = .error e →
    ((s.performAll calls).reserve q replace).state.spans = (s.performAll calls).spans →
    ∀ addr, ((s.performAll calls).reserve q replace).state.attribute? addr handle =
      (s.performAll calls).attribute? addr handle
  /-- Once something came or went, it never answers again, whatever its slot holds by then. -/
  stale : ∀ calls more addr, s.journal calls ≠ [] →
    (s.performAll (calls ++ more)).attribute? addr handle = none
  /-- A handle that is taken later is the same one if nothing came or went and the address is in
  the same region, and only then. -/
  same : ∀ calls addr place other, (s.performAll calls).locate? addr = some (place, other) →
    (other = handle ↔ s.journal calls = [] ∧ r.Contains addr)

theorem age_eq_iff (h : s.Reachable) (calls : List Call) :
    s.age = (s.performAll calls).age ↔ s.journal calls = [] := by
  rw [age_performAll h, ← List.length_eq_zero_iff]
  omega

section Later

variable {handle : Handle} (h : s.Reachable) (hage : handle.age = s.age)
  (hr : s.regionAt? handle.slot = some r)

include h hage hr

theorem attribute?_performAll_iff (calls : List Call) (addr : Nat) (found : Nat × Nat) :
    (s.performAll calls).attribute? addr handle = some found ↔
      s.journal calls = [] ∧ r.Contains addr ∧ found = (r.id, r.fileOffset addr) := by
  rw [attribute?_eq_some_iff, hage, age_eq_iff h]
  constructor
  · intro ⟨hnil, p, hp, hc, hfound⟩
    rw [regionAt?_performAll h hnil, hr] at hp
    cases hp
    exact ⟨hnil, hc, hfound⟩
  · intro ⟨hnil, hc, hfound⟩
    exact ⟨hnil, r, by rw [regionAt?_performAll h hnil, hr], hc, hfound⟩

theorem handle_eq_iff {calls : List Call} {addr place : Nat} {other : Handle}
    (hl : (s.performAll calls).locate? addr = some (place, other)) :
    other = handle ↔ s.journal calls = [] ∧ r.Contains addr := by
  have hsound := sound_of_reachable (reachable_performAll h calls)
  obtain ⟨hother, p, hp, hc, -⟩ := (locate?_eq_some_iff hsound).1 hl
  constructor
  · intro heq
    subst heq
    have hnil := (age_eq_iff h calls).1 (hage.symm.trans hother)
    rw [regionAt?_performAll h hnil, hr] at hp
    cases hp
    exact ⟨hnil, hc⟩
  · intro ⟨hnil, hcr⟩
    have hrl : (s.performAll calls).regionAt? handle.slot = some r := by
      rw [regionAt?_performAll h hnil, hr]
    have hnow := locate?_of_regionAt? hsound hrl hcr
    rw [hl, ← (age_eq_iff h calls).2 hnil, ← hage] at hnow
    exact congrArg Prod.snd (Option.some.inj hnow)

end Later

/-- **A handle never answers for another region.** In every later state it answers if and only if
nothing was inserted or removed since it was taken and the address is in the region that it was
taken on, and then as that region. What was inserted and removed is what leads from the intervals
of the one state to those of the other. -/
theorem serves_of_locate? (h : s.Reachable) {addr place : Nat} {handle : Handle}
    (hl : s.locate? addr = some (place, handle)) :
    (∀ calls, (replay s.spans (s.journal calls)).Perm (s.performAll calls).spans) ∧
      ∃ r ∈ s.live, r.Contains addr ∧ s.Serves handle r := by
  obtain ⟨hage, r, hr, hc, -⟩ := (locate?_eq_some_iff (sound_of_reachable h)).1 hl
  have hanswers := attribute?_performAll_iff h hage hr
  refine ⟨replay_journal h, r, ⟨_, hr⟩, hc, ⟨hanswers, ?refused, ?stale, ?same⟩⟩
  case refused =>
    intro calls q replace e hrefused hspans addr
    have hsound := sound_of_reachable (reachable_performAll h calls)
    have hnil := editsOf_eq_nil hsound hrefused hspans
    rw [(counted_reserve hsound q replace).same hnil]
  case stale =>
    intro calls more addr hne
    refine Option.eq_none_iff_forall_ne_some.2 ?_
    intro found hfound
    have hnil := ((hanswers _ _ _).1 hfound).1
    rw [journal_append, List.append_eq_nil_iff] at hnil
    exact hne hnil.1
  case same =>
    intro calls addr place other
    exact handle_eq_iff h hage hr

/-- A region is replaced by one that is equal to it in all its fields and in the same slot: the
handle on the old one does not answer for the new one. -/
theorem serves_until_replaced :
    let s := ((aligned 4096).reserve ⟨0x10000, 0x2000, 1, 0⟩ false).state
    let t := s.performAll [.reserve ⟨0x10000, 0x2000, 1, 0⟩ true]
    s.Reachable ∧ s.locate? 0x10010 = some (0x10, ⟨0, 1⟩) ∧
      (∃ r ∈ s.live, r.Contains 0x10010 ∧ s.Serves ⟨0, 1⟩ r) ∧
      s.attribute? 0x10010 ⟨0, 1⟩ = some (1, 0x10) ∧ t.regionAt? 0 = s.regionAt? 0 ∧
      t.attribute? 0x10010 ⟨0, 1⟩ = none := by
  have h := Reachable.reserve ⟨0x10000, 0x2000, 1, 0⟩ false (.aligned 4096)
  have hl : ((aligned 4096).reserve ⟨0x10000, 0x2000, 1, 0⟩ false).state.locate? 0x10010 =
      some (0x10, ⟨0, 1⟩) := by decide
  have hserves := serves_of_locate? h hl
  exact ⟨h, hl, hserves.2, by decide, by decide, by decide⟩

end Space
end Unslide
