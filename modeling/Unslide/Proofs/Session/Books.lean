import Unslide.Proofs.Images
import Unslide.Proofs.Session.Steady

/-!
# Unslide.Proofs.Session.Books

The counters of a session and the look-ups that they count. A `Lookup` is one resolution of one
address, with its answer; `Books` says that the counters of the mappings and the marks of the images
tell how many look-ups were answered, through which mappings and into which images, and for whom.

* `Books.resolve`: one more look-up.
* `Books.known`, `Books.mapped`: one more mapping, granted or refused.
-/

namespace Unslide

/-- An address of a thread was looked up. -/
structure Lookup where
  thread : Thread
  addr : Nat
  /-- The number of the region that holds the address. -/
  region? : Option Nat
  answer : Option Hit
  deriving DecidableEq, Repr

namespace Lookup

/-- It answered a location, through a region of the number `id`. -/
def Finds (l : Lookup) (id : Nat) : Prop := l.region? = some id ∧ l.answer.isSome = true

instance (l : Lookup) (id : Nat) : Decidable (l.Finds id) := inferInstanceAs (Decidable (_ ∧ _))

/-- It answered a location in that image. -/
def Enters (l : Lookup) (image : Nat) : Prop := ∃ hit, l.answer = some hit ∧ hit.location.image = image

end Lookup

namespace Session

/-- The look-up of an address, as it is answered now. -/
def lookup (s : Session) (thread : Thread) (addr : Nat) : Lookup :=
  ⟨thread, addr, ((s.spaceOf thread.pid).attribution addr).map Prod.fst,
    (s.resolve addr thread).answer⟩

/-- Addresses of a thread are looked up, one after the other. -/
def lookups (s : Session) (thread : Thread) : List Nat → List Lookup
  | [] => []
  | addr :: rest => s.lookup thread addr :: (s.resolve addr thread).state.lookups thread rest

/-- The counters of the mappings and the marks of the images are those that the look-ups in `log`
leave. -/
structure Books (s : Session) (log : List Lookup) : Prop where
  /-- A mapping that is not on record has no look-up to count. -/
  samples : ∀ id, log.countP (fun l => l.Finds id) =
    ((s.mappings.find? id).map Mapping.samples).getD 0
  /-- Every answer came through a region. -/
  regions : ∀ l ∈ log, l.answer.isSome = true → ∃ id, l.region? = some id
  imaged : ∀ id m, s.mappings.find? id = some m → m.image < s.images.size
  hit : ∀ image, (∃ l ∈ log, l.Enters image) ↔ ∃ i, s.images.get? image = some i ∧ i.hit = true
  threads : ∀ image thread, (∃ l ∈ log, l.Enters image ∧ l.thread = thread) ↔
    ∃ i, s.images.get? image = some i ∧ thread ∈ i.threads
  ascending : ∀ image i, s.images.get? image = some i → i.threads.Pairwise Thread.Before

variable {s t : Session} {log : List Lookup} {thread : Thread} {addr id : Nat} {m : Mapping}
  {hit : Hit}

/-! ## One look-up -/

theorem eq_of_finding_found {space : Space} (h : s.finding space addr = .found id m hit) :
    s.mappings.find? id = some m ∧ (space.attribution addr).map Prod.fst = some id ∧
      hit.location.image = m.image := by
  refine ⟨find?_of_finding (.inl ⟨hit, h⟩), ?_⟩
  simp only [finding] at h
  simp only [Space.attribution]
  cases hl : space.locate? addr with
  | none =>
    rw [hl] at h
    cases h
  | some found =>
    rw [hl] at h
    simp only at h ⊢
    cases ha : space.attribute? addr found.2 with
    | none =>
      rw [ha] at h
      cases h
    | some attributed =>
      rw [ha] at h
      simp only at h
      cases hm : s.mappings.find? attributed.1 with
      | none =>
        rw [hm] at h
        cases h
      | some m' =>
        rw [hm] at h
        simp only at h
        split at h
        · cases h
          exact ⟨rfl, rfl⟩
        · split at h
          · cases h
            exact ⟨rfl, rfl⟩
          · cases h

/-- Where the options keep offsets, no address is found to have moved. -/
theorem finding_ne_moved (h : s.Steady) (hk : s.options.Keeps) (pid : Nat) {place : Nat} :
    s.finding (s.spaceOf pid) addr ≠ .moved id m place := by
  rcases finding_cases (h.sound_spaceOf pid) s addr with ⟨b, hb, hc, -⟩ | hnothing
  · rw [finding_of_contains h hk (h.sound_spaceOf pid) (h.page_spaceOf pid) hb hc]
    split <;> exact nofun
  · rw [hnothing]
    exact nofun

/-- A look-up counts one hit of the mapping and of its image, or it answers nothing and leaves both
tables as they are. -/
theorem resolve_cases (h : s.Steady) (hk : s.options.Keeps) (addr : Nat) (thread : Thread) :
    ((s.lookup thread addr).answer = none ∧
      (s.resolve addr thread).state.mappings = s.mappings ∧
      (s.resolve addr thread).state.images = s.images) ∨
    ∃ id m hit, s.mappings.find? id = some m ∧ hit.location.image = m.image ∧
      s.lookup thread addr = ⟨thread, addr, some id, some hit⟩ ∧
      (s.resolve addr thread).state.mappings =
        s.mappings.insert id { m with samples := m.samples + 1 } ∧
      (s.resolve addr thread).state.images = s.images.record m.image thread := by
  cases hfinding : s.finding (s.spaceOf thread.pid) addr with
  | nothing =>
    left
    simp only [spaceOf] at hfinding
    simp only [lookup, resolve, hfinding, and_self]
  | unrecorded id =>
    left
    simp only [spaceOf] at hfinding
    simp only [lookup, resolve, hfinding, and_self]
  | moved id m place => exact absurd hfinding (finding_ne_moved h hk thread.pid)
  | found id m hit =>
    right
    obtain ⟨hm, hregion, himage⟩ := eq_of_finding_found hfinding
    simp only [spaceOf] at hfinding
    refine ⟨id, m, hit, hm, himage, ?_⟩
    simp only [lookup, resolve, hfinding, hregion, true_and]
    exact ⟨rfl, rfl⟩

namespace Books

theorem start (o : Options) : (start o).Books [] where
  samples _ := rfl
  regions _ h := by cases h
  imaged _ _ h := by cases h
  hit _ := by simp [Session.start, Images.empty, Images.get?]
  threads _ _ := by simp [Session.start, Images.empty, Images.get?]
  ascending _ _ h := by cases h

/-- What leaves mappings and images as they are leaves the books in order. -/
theorem of_eq (h : s.Books log) (hm : t.mappings = s.mappings) (hi : t.images = s.images) :
    t.Books log where
  samples := by rw [hm]; exact h.samples
  regions := h.regions
  imaged := by rw [hm, hi]; exact h.imaged
  hit := by rw [hi]; exact h.hit
  threads := by rw [hi]; exact h.threads
  ascending := by rw [hi]; exact h.ascending

/-- A look-up without an answer is counted nowhere. -/
theorem unanswered (h : s.Books log) {l : Lookup} (hl : l.answer = none) : s.Books (log ++ [l]) := by
  have hfinds : ∀ id, ¬ l.Finds id := by
    intro id hfinds
    rw [Lookup.Finds, hl] at hfinds
    cases hfinds.2
  have henters : ∀ image, ¬ l.Enters image := by
    intro image ⟨hit, hhit, _⟩
    rw [hl] at hhit
    cases hhit
  refine ⟨?_, ?_, h.imaged, ?_, ?_, h.ascending⟩
  · intro id
    rw [List.countP_append, h.samples]
    simp [hfinds id]
  · intro k hk hsome
    rw [List.mem_append, List.mem_singleton] at hk
    cases hk with
    | inl hk => exact h.regions k hk hsome
    | inr hk =>
      rw [hk, hl] at hsome
      cases hsome
  · intro image
    rw [← h.hit image]
    simp [henters image]
  · intro image thread
    rw [← h.threads image thread]
    simp [henters image]

/-- A look-up that is answered is counted once, for its mapping and for its image. -/
theorem answered (h : s.Books log) (hm : s.mappings.find? id = some m)
    (himage : hit.location.image = m.image)
    (hmappings : t.mappings = s.mappings.insert id { m with samples := m.samples + 1 })
    (himages : t.images = s.images.record m.image thread) :
    t.Books (log ++ [⟨thread, addr, some id, some hit⟩]) := by
  have hfinds : ∀ other, (⟨thread, addr, some id, some hit⟩ : Lookup).Finds other ↔ other = id := by
    intro other
    simp [Lookup.Finds, eq_comm]
  have henters : ∀ image,
      (⟨thread, addr, some id, some hit⟩ : Lookup).Enters image ↔ image = m.image := by
    intro image
    simp [Lookup.Enters, himage, eq_comm]
  obtain ⟨i, hi⟩ := Images.exists_get?_of_lt (h.imaged id m hm)
  refine ⟨?samples, ?regions, ?imaged, ?hit, ?threads, ?ascending⟩
  case samples =>
    intro other
    rw [hmappings, List.countP_append, h.samples]
    by_cases heq : other = id
    · subst heq
      rw [Index.find?_insert_self, hm]
      simp [hfinds]
    · rw [Index.find?_insert_of_ne _ _ heq]
      simp [hfinds, heq]
  case regions =>
    intro k hk hsome
    rw [List.mem_append, List.mem_singleton] at hk
    cases hk with
    | inl hk => exact h.regions k hk hsome
    | inr hk => exact ⟨id, by rw [hk]⟩
  case imaged =>
    intro other n hn
    rw [himages, Images.record, Images.size_modify]
    rw [hmappings] at hn
    by_cases heq : other = id
    · subst heq
      rw [Index.find?_insert_self] at hn
      cases hn
      exact h.imaged other m hm
    · rw [Index.find?_insert_of_ne _ _ heq] at hn
      exact h.imaged other n hn
  case hit =>
    intro image
    rw [himages, Images.get?_record]
    by_cases heq : image = m.image
    · simp [heq, hi, henters, Images.Image.record]
    · simp only [List.mem_append, List.mem_singleton, or_and_right, exists_or, exists_eq_left,
        henters, heq, or_false, if_false]
      exact h.hit image
  case threads =>
    intro image other
    rw [himages, Images.get?_record]
    simp only [List.mem_append, List.mem_singleton, or_and_right, exists_or, exists_eq_left,
      henters, h.threads]
    by_cases heq : image = m.image
    · subst heq
      simp [hi, Images.Image.record, Thread.mem_insert, or_comm, eq_comm]
    · simp [heq]
  case ascending =>
    intro image j hj
    rw [himages, Images.get?_record] at hj
    split at hj
    · rw [hi] at hj
      cases hj
      exact Thread.ascending_insert thread (h.ascending m.image i hi)
    · exact h.ascending image j hj

/-- One more look-up is counted as it is answered. -/
theorem resolve (h : s.Books log) (hs : s.Steady) (hk : s.options.Keeps) (addr : Nat)
    (thread : Thread) : (s.resolve addr thread).state.Books (log ++ [s.lookup thread addr]) := by
  cases resolve_cases hs hk addr thread with
  | inl hnone =>
    obtain ⟨hanswer, hmappings, himages⟩ := hnone
    exact (h.unanswered hanswer).of_eq hmappings himages
  | inr hfound =>
    obtain ⟨id, m, hit, hm, himage, hlookup, hmappings, himages⟩ := hfound
    rw [hlookup]
    exact h.answered hm himage hmappings himages

theorem resolveAll (h : s.Books log) (hs : s.Steady) (hk : s.options.Keeps) (thread : Thread)
    (addrs : List Nat) : (s.resolveAll thread addrs).Books (log ++ s.lookups thread addrs) := by
  induction addrs generalizing s log with
  | nil =>
    rw [lookups, List.append_nil]
    exact h
  | cons addr rest ih =>
    have hopened := opened_resolve s addr thread
    have hrest := ih (h.resolve hs hk addr thread) (hs.opened hopened)
      (by rw [hopened.options]; exact hk)
    rw [List.append_assoc, List.singleton_append] at hrest
    exact hrest

/-! ## Mappings -/

/-- A name that is given its number changes no mark. -/
theorem mapped (h : s.Books log) (e : Mmap) (id : Nat) : (s.mapped e id).Books log where
  samples := h.samples
  regions := h.regions
  imaged other n hn :=
    Nat.lt_of_lt_of_le (h.imaged other n hn) (Images.size_intern_le s.images e.filename e.kernel)
  hit image := by
    rw [h.hit image]
    exact (Images.exists_get?_intern (p := fun i => i.hit = true) (fun _ _ => Iff.rfl)
      (fun _ _ => by simp) s.images e.filename e.kernel image).symm
  threads image thread := by
    rw [h.threads image thread]
    exact (Images.exists_get?_intern (p := fun i => thread ∈ i.threads) (fun _ _ => Iff.rfl)
      (fun _ _ => by simp) s.images e.filename e.kernel image).symm
  ascending image i hi := by
    have hsame := Images.exists_get?_intern (p := fun i => ¬ i.threads.Pairwise Thread.Before)
      (fun _ _ => Iff.rfl) (fun _ _ => by simp) s.images e.filename e.kernel image
    refine Classical.byContradiction fun hnot => ?_
    obtain ⟨j, hj, hbad⟩ := hsame.1 ⟨i, hi, hnot⟩
    exact hbad (h.ascending image j hj)

/-- A new mapping comes on record with no look-up to count. -/
theorem known (h : s.Books log) (e : Mmap) (hid : s.mappings.find? id = none) :
    (s.known e id).Books log where
  samples other := by
    have hmapped := (h.mapped e id).samples other
    by_cases heq : other = id
    · subst heq
      rw [h.samples other, hid, Session.known, remember, Index.find?_insert_self]
      rfl
    · rw [Session.known, remember, Index.find?_insert_of_ne _ _ heq]
      exact hmapped
  regions := h.regions
  imaged other n hn := by
    by_cases heq : other = id
    · subst heq
      rw [Session.known, remember, Index.find?_insert_self] at hn
      cases hn
      exact Images.lt_size_intern s.images e.filename e.kernel
    · rw [Session.known, remember, Index.find?_insert_of_ne _ _ heq] at hn
      exact (h.mapped e id).imaged other n hn
  hit := (h.mapped e id).hit
  threads := (h.mapped e id).threads
  ascending := (h.mapped e id).ascending

end Books

end Session
end Unslide
