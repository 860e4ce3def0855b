import Unslide.Proofs.Session.Books
import Unslide.Proofs.Session.History

/-!
# Unslide.Proofs.Session.Registration

One mapping from its record to its addresses. A mapping that is registered under a new number is
taken at one geometry, and everything that is told of it afterwards goes by that geometry: what is
on record, which addresses are resolved into it, and what is written for it. If it cannot be
registered, it was refused by the space of its process, and nothing was recorded.

* `takenAs_iff`: the geometry.
* `known_inside`, `known_outside`: the addresses of a mapping that was granted.
* `register_end_to_end`: all that comes of a mapping.
-/

namespace Unslide

/-- The interval and the file offset that a mapping is taken at. The kernel's mapping, number 0, has
its offset cleared, and starts where its text does if that is inside. -/
inductive Mmap.TakenAs (e : Mmap) : Nat → Geometry → Prop where
  | recorded {id : Nat} : id ≠ 0 → e.TakenAs id ⟨e.start, e.len, e.pgoff⟩
  | whole : ¬ (e.start < e.pgoff ∧ e.pgoff - e.start < e.len) → e.TakenAs 0 ⟨e.start, e.len, 0⟩
  | trimmed : e.start < e.pgoff → e.pgoff - e.start < e.len →
      e.TakenAs 0 ⟨e.pgoff, e.len - (e.pgoff - e.start), 0⟩

def Geometry.Contains (g : Geometry) (addr : Nat) : Prop :=
  g.start ≤ addr ∧ addr < g.start + g.len

instance (g : Geometry) (addr : Nat) : Decidable (g.Contains addr) :=
  inferInstanceAs (Decidable (_ ∧ _))

theorem Mmap.takenAs_iff {e : Mmap} {id : Nat} {g : Geometry} :
    e.TakenAs id g ↔ g = e.geometry id := by
  constructor
  · intro h
    cases h with
    | recorded hid => exact (e.geometry_of_ne_zero hid).symm
    | whole hnot =>
      have hearly : ¬ e.StartsEarly := hnot
      simp only [Mmap.geometry, if_neg hearly, if_true]
    | trimmed hstart hlen =>
      have hearly : e.StartsEarly := ⟨hstart, hlen⟩
      simp only [Mmap.geometry, if_pos hearly, if_true]
  · rintro rfl
    by_cases hid : id = 0
    · subst hid
      by_cases hearly : e.StartsEarly
      · simp only [Mmap.geometry, if_pos hearly, if_true]
        exact .trimmed hearly.1 hearly.2
      · simp only [Mmap.geometry, if_neg hearly, if_true]
        exact .whole hearly
    · rw [e.geometry_of_ne_zero hid]
      exact .recorded hid

namespace Session

/-- In `t` the mapping `e` has just been registered under the number `id`, at the geometry `g`, for
the image of that number and with the synthetic start `place`; `e'` was written for it. -/
structure Registered (o : Options) (t : Session) (e e' : Mmap) (id : Nat) (g : Geometry)
    (image place : Nat) : Prop where
  record : t.mappings.find? id = some ⟨e.pid, image, g.start, g.len, g.pgoff, 0⟩
  name : t.images.nameOf? image = some e.filename
  /-- All addresses of the mapping are resolved, for all threads of its process. -/
  inside : ∀ tid addr, g.Contains addr →
    (t.resolve addr ⟨e.pid, tid⟩).answer =
      some ⟨if o.remap = true then place + (addr - g.start) else addr,
        ⟨image, wrap (addr - g.start + g.pgoff)⟩⟩
  /-- No other address of any thread is in a region of the mapping, or counted as a hit of it. -/
  outside : ∀ thread addr, ¬ g.Contains addr →
    (t.lookup thread addr).region? ≠ some id ∧
      (t.resolve addr thread).state.mappings.find? id = t.mappings.find? id
  remapped : o.remap = true →
    place % o.alignment = g.start % o.alignment ∧
      e' = { e with start := place, len := g.len, pgoff := g.pgoff }
  kept : o.remap = false → e' = e

variable {s : Session} {o : Options} {e : Mmap} {id place tid addr : Nat} {thread : Thread}

theorem checkedPage_of_isPowerOfTwo (h : s.Steady)
    (hp : isPowerOfTwo s.options.alignment = true) : s.checkedPage = s.options.alignment := by
  rw [checkedPage, if_neg (h.page_ne_zero hp), h.page, pageSize, if_pos hp]

/-! ## A mapping that was granted -/

/-- The block of a mapping, placed at `place`. -/
def blockOf (e : Mmap) (id place : Nat) : Region := ((e.geometry id).request id).block place

theorem contains_blockOf : (blockOf e id place).Contains addr ↔ (e.geometry id).Contains addr :=
  Iff.rfl

theorem spaceOf_known (s : Session) (e : Mmap) (id : Nat) :
    (s.known e id).spaceOf e.pid = (s.placed e id).state := by
  have hput : (s.known e id).processes.get? e.pid = some (s.placed e id).state :=
    Processes.get?_put_self _ _ _
  rw [spaceOf, Processes.ensure_of_get? hput]

/-- Each address of the mapping is found in its block. -/
theorem known_inside (h : s.Steady) (hk : s.options.Keeps)
    (hb : blockOf e id place ∈ (s.placed e id).state.blocks) (hc : (e.geometry id).Contains addr) :
    ((s.known e id).resolve addr ⟨e.pid, tid⟩).answer =
      some ⟨(s.known e id).shown (blockOf e id place) addr,
        ⟨(s.recordOf e id).image, (blockOf e id place).fileOffset addr⟩⟩ := by
  refine (hitOf_eq_some_iff (steady_known h e id) hk).2
    ⟨blockOf e id place, ?_, contains_blockOf.2 hc, ?_⟩
  · rw [spaceOf_known]
    exact hb
  · exact ⟨s.recordOf e id, Index.find?_insert_self _ _ _, rfl⟩

/-- The only regions under a new number are in the interval of its mapping. -/
theorem regions_known (h : s.Steady) (hunused : s.Unused id) :
    (s.known e id).Regions fun b => b.id = id → (s.recordOf e id).Holds b := by
  refine hunused.regions.mapped h ?_ fun _ place _ => s.recordOf_holds e id place
  intro old b hold hpart heq
  exact absurd (hpart.id.symm.trans heq) hold

theorem known_outside (h : s.Steady) (hk : s.options.Keeps) (hunused : s.Unused id)
    (hout : ¬ (e.geometry id).Contains addr) :
    ((s.known e id).lookup thread addr).region? ≠ some id ∧
      ((s.known e id).resolve addr thread).state.mappings.find? id =
        (s.known e id).mappings.find? id := by
  have ht := steady_known h e id
  have hs := ht.sound_spaceOf thread.pid
  have hregion : ((s.known e id).lookup thread addr).region? ≠ some id := by
    intro hregion
    simp only [lookup] at hregion
    by_cases hin : ∃ b ∈ ((s.known e id).spaceOf thread.pid).blocks, b.Contains addr
    · obtain ⟨b, hb, hc⟩ := hin
      rw [Space.attribution_of_contains hs hb hc, Option.map_some, Option.some.injEq] at hregion
      exact hout (((regions_known h hunused).spaceOf hb hregion).contains hc)
    · rw [Space.attribution_of_free hs fun b hb hc => hin ⟨b, hb, hc⟩] at hregion
      cases hregion
  refine ⟨hregion, ?_⟩
  rcases resolve_cases ht hk addr thread with ⟨-, hsame, -⟩ | ⟨other, m, hit, -, -, hfound, hm, -⟩
  · rw [hsame]
  · rw [hfound] at hregion
    have hne : id ≠ other := fun heq => hregion (congrArg some heq.symm)
    rw [hm, Index.find?_insert_of_ne _ _ hne]

theorem placeOf_blockOf (e : Mmap) (id place addr : Nat) :
    (blockOf e id place).placeOf addr = place + (addr - (e.geometry id).start) := rfl

/-- The synthetic start of a mapping lies where the real one does in its page. -/
theorem place_mod (h : s.Steady) (hp : isPowerOfTwo s.options.alignment = true)
    (hremap : s.options.remap = true)
    (hb : blockOf e id place ∈ (s.placed e id).state.blocks) :
    place % s.options.alignment = (e.geometry id).start % s.options.alignment := by
  obtain ⟨hs, hpage, -⟩ := placed_obeys h e id
  have hc : (blockOf e id place).Contains (e.geometry id).start :=
    contains_blockOf.2 ⟨Nat.le_refl _, Nat.lt_add_of_pos_right (hs.valid _ hb).1⟩
  have hsame := sameOffset_placeOf h (.inr hp) (by simp [hremap]) hs
    (hpage.trans (h.page_spaceOf e.pid)) hb hc
  rw [placeOf_blockOf, Nat.sub_self, Nat.add_zero, SameOffset,
    checkedPage_of_isPowerOfTwo h hp] at hsame
  exact hsame.symm

theorem registered_known (h : s.Steady) (hp : isPowerOfTwo s.options.alignment = true)
    (hunused : s.Unused id) (hb : blockOf e id place ∈ (s.placed e id).state.blocks) :
    Registered s.options (s.known e id) e
      (if s.options.remap = false then e
        else { e with start := place, len := (e.geometry id).len, pgoff := (e.geometry id).pgoff })
      id (e.geometry id) (s.recordOf e id).image place where
  record := Index.find?_insert_self _ _ _
  name := Images.nameOf?_intern _ _ _
  inside tid addr hc := by
    rw [known_inside h (.inr hp) hb hc]
    have hoptions : (s.known e id).options = s.options := rfl
    cases hremap : s.options.remap with
    | false => simp only [shown, hoptions, hremap, Bool.false_eq_true, if_true, if_false]; rfl
    | true => simp only [shown, hoptions, hremap, Bool.true_eq_false, if_true, if_false]; rfl
  outside thread addr hout := known_outside h (.inr hp) hunused hout
  remapped hremap := by
    refine ⟨place_mod h hp hremap hb, ?_⟩
    simp only [hremap, Bool.true_eq_false, if_false]
  kept hremap := if_pos hremap

/-! ## Every mapping -/

/-- **A mapping from its record to its addresses.** Whatever a session has been through that keeps
offsets in pages, and whatever mapping it registers under a number that was not used: if that
succeeds, the mapping is on record, its addresses and no others are resolved into it, and the record
that is written for it says where they were placed. If it fails, the space of the process refused
the mapping, and neither the record nor any mapping has changed. -/
theorem register_end_to_end {calls : List Call} {g : Geometry}
    (hpage : isPowerOfTwo o.alignment = true) (hid : id ∉ Call.numbers calls)
    (hg : e.TakenAs id g) :
    let s := (start o).performAll calls
    let r := s.register e id
    (r.answer.2 = .ok () →
      ∃ image place, Registered o r.state e r.answer.1 id g image place) ∧
    (∀ failure, r.answer.2 = .error failure →
      (∃ refusal, failure = .mappingRefused id e.pid e.filename refusal) ∧
        r.answer.1 = e ∧ r.state.mappings = s.mappings) := by
  intro s r
  have hunused : s.Unused id := unused_performAll o hid
  obtain ⟨hs, ho⟩ : s.Steady ∧ s.options = o := (reachable_performAll .start calls).steady
  rw [Mmap.takenAs_iff] at hg
  subst hg
  rw [← ho] at hpage ⊢
  cases hplaced : (s.placed e id).answer with
  | error refusal =>
    obtain ⟨hstate, hanswer⟩ := register_refused hplaced
    refine ⟨fun hok => ?_, fun failure hfailed => ?_⟩
    · simp only [r, hanswer] at hok
      cases hok
    · simp only [r, hanswer, Except.error.injEq] at hfailed
      refine ⟨⟨refusal, hfailed.symm⟩, ?_, ?_⟩
      · simp only [r, hanswer]
      · simp only [r, hstate]
        rfl
  | ok _ =>
    obtain ⟨hstate, place, hb, hanswer⟩ := register_granted hs (.inr hpage) hplaced
    refine ⟨fun _ => ⟨(s.recordOf e id).image, place, ?_⟩, fun failure hfailed => ?_⟩
    · simp only [r, hstate, hanswer]
      exact registered_known hs hpage hunused hb
    · simp only [r, hanswer] at hfailed
      cases hfailed

/-- The kernel's mapping starts below its text. It comes after that of a process. -/
theorem register_end_to_end_kernel :
    let e : Mmap := ⟨kernelPid, 0, 0xffffffff80000000, 0x40000000, 0xffffffff81000000,
      "[kernel.kallsyms]_text", true⟩
    let calls : List Call := [.register ⟨7, 7, 0x10000, 0x4000, 0, "a.so", false⟩ 3]
    let r := ((start .default).performAll calls).register e 0
    isPowerOfTwo Options.default.alignment = true ∧ 0 ∉ Call.numbers calls ∧
      e.TakenAs 0 ⟨0xffffffff81000000, 0x3f000000, 0⟩ ∧ r.answer.2 = .ok () ∧
      ∃ image place,
        Registered .default r.state e r.answer.1 0 ⟨0xffffffff81000000, 0x3f000000, 0⟩ image place
          := by
  intro e calls r
  subst r
  have hpage : isPowerOfTwo Options.default.alignment = true := isPowerOfTwo_systemPage none
  have hid : 0 ∉ Call.numbers calls := by decide
  have htaken : e.TakenAs 0 ⟨0xffffffff81000000, 0x3f000000, 0⟩ :=
    Mmap.takenAs_iff.2 (by decide)
  have hplaced : (((start .default).performAll calls).placed e 0).answer = .ok () := by decide
  have hs := (reachable_performAll (o := .default) .start calls).steady.1
  obtain ⟨-, place, -, hanswer⟩ := register_granted hs (.inr hpage) hplaced
  have hregistered := (register_end_to_end hpage hid htaken).1
  rw [hanswer] at hregistered ⊢
  exact ⟨hpage, hid, htaken, rfl, hregistered rfl⟩

end Session
end Unslide
