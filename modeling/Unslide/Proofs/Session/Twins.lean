import Mathlib.Data.List.Forall2
import Mathlib.Data.List.Sort
import Mathlib.Data.List.TakeWhile
import Unslide.Proofs.Session.Steady

/-!
# Unslide.Proofs.Session.Twins

Two sessions side by side. They are twins if they have met the same images and commands, count the
same hits, and the spaces of their processes are related. Two addresses match if the spaces of the
process attribute them to the same number and offset. Twins that look matching addresses up find
the same locations and stay twins; so they resolve matching samples alike.

* `Twin.resolve`, `Twin.resolveAll`: looking addresses up.
* `resolution_congr`, `sampleLookedUp_matched`: samples whose addresses match one by one.
* `Twin.sample`, `Twin.known`, `Twin.fork`, `Twin.nameThread`: the records of a capture.
-/

namespace Unslide

/-- What is reported of a mapping: its image and its hits. -/
def Mapping.reported (m : Mapping) : Nat × Nat := (m.image, m.samples)

namespace Session

/-- Two sessions that resolve alike wherever related spaces attribute alike. -/
structure Twin (R : Space → Space → Prop) (s t : Session) : Prop where
  steady : s.Steady ∧ t.Steady
  keeps : s.options.Keeps ∧ t.options.Keeps
  images : t.images = s.images
  commands : t.commands = s.commands
  records : ∀ id,
    (t.mappings.find? id).map Mapping.reported = (s.mappings.find? id).map Mapping.reported
  processes : s.processes.Related R t.processes
  fresh : R (.aligned s.processes.page) (.aligned t.processes.page)

/-- The two look-ups come to the same, up to the address that is written. -/
inductive SameFinding : Finding → Finding → Prop where
  | nothing : SameFinding .nothing .nothing
  | unrecorded (id : Nat) : SameFinding (.unrecorded id) (.unrecorded id)
  | found (id : Nat) {m n : Mapping} {hit hit' : Hit} : n.reported = m.reported →
      hit'.location = hit.location → SameFinding (.found id m hit) (.found id n hit')

/-- Two addresses were found at the same location, or neither was found. -/
def SameLocation : Option Hit → Option Hit → Prop := Option.Rel fun hit hit' =>
  hit'.location = hit.location

variable {R : Space → Space → Prop} {s t : Session} {thread : Thread} {pid a b : Nat}

theorem Opened.spaceOf_eq (h : Opened pid s t) : t.spaceOf pid = s.spaceOf pid := by
  rw [spaceOf, spaceOf, h.processes, Processes.ensure_ensure]

theorem sameLocation_of_sameFinding {f g : Finding} (h : SameFinding f g) :
    SameLocation f.hit? g.hit? := by
  cases h with
  | nothing => exact .none
  | unrecorded id => exact .none
  | found id _ hloc => exact .some hloc

theorem SameLocation.map_eq {x y : Option Hit} (h : SameLocation x y) :
    y.map Hit.location = x.map Hit.location := by
  cases h with
  | none => rfl
  | some hloc => exact congrArg some hloc

theorem SameLocation.isSome_eq {x y : Option Hit} (h : SameLocation x y) :
    y.isSome = x.isSome := by
  cases h <;> rfl

theorem mem_unsampled {id : Nat} :
    id ∈ s.unsampled ↔ ∃ image, (s.mappings.find? id).map Mapping.reported = some (image, 0) := by
  simp only [Session.unsampled, List.mem_map, List.mem_filter, decide_eq_true_eq,
    Option.map_eq_some_iff, Index.find?_eq_some_iff, Mapping.reported, Prod.mk.injEq]
  constructor
  · rintro ⟨⟨k, m⟩, ⟨hin, hzero⟩, rfl⟩
    exact ⟨m.image, m, hin, rfl, hzero⟩
  · rintro ⟨image, m, hin, -, hzero⟩
    exact ⟨(id, m), ⟨hin, hzero⟩, rfl⟩

namespace Twin

theorem spaceOf (h : Twin R s t) (pid : Nat) : R (s.spaceOf pid) (t.spaceOf pid) :=
  (h.processes.ensure h.fresh pid kernelPid).1

theorem finding (h : Twin R s t)
    (hab : (s.spaceOf pid).attribution a = (t.spaceOf pid).attribution b) :
    SameFinding (s.finding (s.spaceOf pid) a) (t.finding (t.spaceOf pid) b) := by
  have hs := h.steady.1.sound_spaceOf pid
  have ht := h.steady.2.sound_spaceOf pid
  by_cases hin : ∃ c ∈ (s.spaceOf pid).blocks, c.Contains a
  · obtain ⟨c, hc, hca⟩ := hin
    have hcatt := Space.attribution_of_contains hs hc hca
    by_cases hin' : ∃ d ∈ (t.spaceOf pid).blocks, d.Contains b
    · obtain ⟨d, hd, hdb⟩ := hin'
      rw [hcatt, Space.attribution_of_contains ht hd hdb, Option.some.injEq, Prod.mk.injEq] at hab
      obtain ⟨hid, hoffset⟩ := hab
      rw [finding_of_contains h.steady.1 h.keeps.1 hs (h.steady.1.page_spaceOf pid) hc hca,
        finding_of_contains h.steady.2 h.keeps.2 ht (h.steady.2.page_spaceOf pid) hd hdb, ← hid,
        ← hoffset]
      have hrec := h.records c.id
      cases hm : s.mappings.find? c.id with
      | none =>
        rw [hm, Option.map_none, Option.map_eq_none_iff] at hrec
        rw [hrec]
        exact .unrecorded _
      | some m =>
        rw [hm, Option.map_some, Option.map_eq_some_iff] at hrec
        obtain ⟨n, hn, hrep⟩ := hrec
        rw [hn]
        refine .found _ hrep ?_
        rw [show n.image = m.image from congrArg Prod.fst hrep]
    · rw [hcatt, Space.attribution_of_free ht fun d hd hdb => hin' ⟨d, hd, hdb⟩] at hab
      cases hab
  · have hfree : ∀ c ∈ (s.spaceOf pid).blocks, ¬ c.Contains a := fun c hc hca => hin ⟨c, hc, hca⟩
    rw [Space.attribution_of_free hs hfree] at hab
    have hfree' : ∀ d ∈ (t.spaceOf pid).blocks, ¬ d.Contains b := by
      intro d hd hdb
      rw [Space.attribution_of_contains ht hd hdb] at hab
      cases hab
    rw [finding_of_free hs hfree, finding_of_free ht hfree']
    exact .nothing

theorem location (h : Twin R s t)
    (hab : (s.spaceOf thread.pid).attribution a = (t.spaceOf thread.pid).attribution b) :
    SameLocation (s.hitOf thread a) (t.hitOf thread b) := by
  rw [hitOf, hitOf, answer_resolve, answer_resolve]
  exact sameLocation_of_sameFinding (h.finding hab)

theorem countHit (h : Twin R s t) (id : Nat) {m n : Mapping} (hmn : n.reported = m.reported)
    (thread : Thread) : Twin R (s.countHit id m thread) (t.countHit id n thread) where
  steady := ⟨⟨h.steady.1.page, h.steady.1.spaces⟩, ⟨h.steady.2.page, h.steady.2.spaces⟩⟩
  keeps := h.keeps
  images := by
    have himage : n.image = m.image := congrArg Prod.fst hmn
    simp only [Session.countHit, h.images, himage]
  commands := h.commands
  records other := by
    have himage : n.image = m.image := congrArg Prod.fst hmn
    have hsamples : n.samples = m.samples := congrArg Prod.snd hmn
    simp only [Session.countHit]
    by_cases ho : other = id
    · subst ho
      rw [Index.find?_insert_self, Index.find?_insert_self]
      simp only [Option.map_some, Mapping.reported, himage, hsamples]
    · rw [Index.find?_insert_of_ne _ _ ho, Index.find?_insert_of_ne _ _ ho]
      exact h.records other
  processes := h.processes
  fresh := h.fresh

theorem ensure (h : Twin R s t) (pid parent : Nat) :
    Twin R { s with processes := (s.processes.ensure pid parent).state }
      { t with processes := (t.processes.ensure pid parent).state } where
  steady := by
    constructor
    · exact h.steady.1.of_processes rfl (Processes.page_ensure _ _ _) (h.steady.1.ensure _ _).2
    · exact h.steady.2.of_processes rfl (Processes.page_ensure _ _ _) (h.steady.2.ensure _ _).2
  keeps := h.keeps
  images := h.images
  commands := h.commands
  records := h.records
  processes := (h.processes.ensure h.fresh pid parent).2
  fresh := by
    simp only [Processes.page_ensure]
    exact h.fresh

theorem resolve (h : Twin R s t)
    (hab : (s.spaceOf thread.pid).attribution a = (t.spaceOf thread.pid).attribution b) :
    Twin R (s.resolve a thread).state (t.resolve b thread).state := by
  have hready := h.ensure thread.pid kernelPid
  have hsame := h.finding hab
  simp only [Session.resolve]
  rw [← Session.spaceOf, ← Session.spaceOf]
  generalize s.finding (s.spaceOf thread.pid) a = f at hsame
  generalize t.finding (t.spaceOf thread.pid) b = g at hsame
  cases hsame with
  | nothing => exact hready
  | unrecorded id => exact hready
  | found id hmn _ => exact hready.countHit id hmn thread

theorem resolveAll {xs ys : List Nat} (h : Twin R s t)
    (hxy : List.Forall₂ (fun a b =>
      (s.spaceOf thread.pid).attribution a = (t.spaceOf thread.pid).attribution b) xs ys) :
    Twin R (s.resolveAll thread xs) (t.resolveAll thread ys) := by
  induction xs generalizing s t ys with
  | nil =>
    cases hxy
    exact h
  | cons a rest ih =>
    cases ys with
    | nil => cases hxy
    | cons b ys =>
      obtain ⟨hab, hrest⟩ := List.forall₂_cons.1 hxy
      rw [← (opened_resolve s a thread).spaceOf_eq,
        ← (opened_resolve t b thread).spaceOf_eq] at hrest
      have hnext := ih (h.resolve hab) hrest
      exact hnext

end Twin

/-! ## Samples whose addresses match -/

variable {A : Nat → Nat → Prop} {look look' : Nat → Option Hit}

/-- Values of two call chains that match: the same marker, the sampled addresses, or two frames. -/
inductive FramesMatch (A : Nat → Nat → Prop) (sampled sampled' : Nat) : Nat → Nat → Prop where
  | marker {v : Nat} : isMarker v = true → FramesMatch A sampled sampled' v v
  | own : isMarker sampled = false → isMarker sampled' = false →
      FramesMatch A sampled sampled' sampled sampled'
  | frame {v w : Nat} : isMarker v = false → isMarker w = false → v ≠ sampled → w ≠ sampled' →
      A v w → FramesMatch A sampled sampled' v w

/-- Entries of two branch stacks that match: padding, or two branches. -/
inductive BranchesMatch (A : Nat → Nat → Prop) : Branch → Branch → Prop where
  | padding {b : Branch} : b.isNull = true → BranchesMatch A b b
  | taken {b c : Branch} : b.isNull = false → c.isNull = false →
      c.mispredicted = b.mispredicted → A b.source c.source → A b.target c.target →
      BranchesMatch A b c

structure SamplesMatch (A : Nat → Nat → Prop) (e f : Sample) : Prop where
  thread : f.thread = e.thread
  ip : A e.ip f.ip
  callchain : List.Forall₂ (FramesMatch A e.ip f.ip) e.callchain f.callchain
  branches : List.Forall₂ (BranchesMatch A) e.branches f.branches

theorem SamplesMatch.imp {B : Nat → Nat → Prop} (hAB : ∀ a b, A a b → B a b) {e f : Sample}
    (h : SamplesMatch A e f) : SamplesMatch B e f where
  thread := h.thread
  ip := hAB _ _ h.ip
  callchain := by
    refine h.callchain.imp ?_
    intro v w hvw
    cases hvw with
    | marker hv => exact .marker hv
    | own hp hq => exact .own hp hq
    | frame hv hw hne hne' ha => exact .frame hv hw hne hne' (hAB _ _ ha)
  branches := by
    refine h.branches.imp ?_
    intro b c hbc
    cases hbc with
    | padding hb => exact .padding hb
    | taken hb hc hmis hsource htarget =>
      exact .taken hb hc hmis (hAB _ _ hsource) (hAB _ _ htarget)

theorem lookedUp_matched {p q : Nat} {vs ws : List Nat}
    (h : List.Forall₂ (FramesMatch A p q) vs ws) :
    List.Forall₂ A (lookedUp p vs) (lookedUp q ws) := by
  induction h with
  | nil => exact .nil
  | @cons v w vs ws hvw _ ih =>
    cases hvw with
    | marker hv => simpa [lookedUp, hv] using ih
    | own hp hq => simpa [lookedUp, hp, hq] using ih
    | frame hv hw hne hne' ha =>
      have hrest := List.Forall₂.cons ha ih
      simpa [lookedUp, hv, hw, hne, hne'] using hrest

def Matched (A : Nat → Nat → Prop) (look look' : Nat → Option Hit) : Prop :=
  ∀ a b, A a b → SameLocation (look a) (look' b)

theorem frames_congr (hlook : Matched A look look') {p q : Nat} {vs ws : List Nat}
    (h : List.Forall₂ (FramesMatch A p q) vs ws) (ip ip' : Nat) :
    (frames look' ip' q ws).entries = (frames look ip p vs).entries ∧
      (frames look' ip' q ws).complete = (frames look ip p vs).complete := by
  have hmatched := lookedUp_matched h
  simp only [frames]
  generalize lookedUp p vs = xs at hmatched
  generalize lookedUp q ws = ys at hmatched
  have hmap : ys.map (fun b => (look' b).map Hit.location) =
      xs.map fun a => (look a).map Hit.location := by
    induction hmatched with
    | nil => rfl
    | cons hab _ ih => rw [List.map_cons, List.map_cons, ih, (hlook _ _ hab).map_eq]
  refine ⟨by rw [hmap], ?_⟩
  clear hmap
  induction hmatched with
  | nil => rfl
  | cons hab _ ih => rw [List.all_cons, List.all_cons, ih, (hlook _ _ hab).isSome_eq]

theorem jumps_congr (hlook : Matched A look look') {bs cs : List Branch}
    (h : List.Forall₂ (BranchesMatch A) bs cs) (htaken : ∀ b ∈ bs, b.isNull = false) :
    (jumps look' cs).resolved = (jumps look bs).resolved ∧
      List.Forall₂ A (jumpsLookedUp look bs) (jumpsLookedUp look' cs) := by
  induction h with
  | nil => exact ⟨rfl, .nil⟩
  | @cons b c bs cs hbc _ ih =>
    have hb := htaken b (by simp)
    obtain ⟨hresolved, hmatched⟩ := ih fun d hd => htaken d (by simp [hd])
    cases hbc with
    | padding hnull =>
      rw [hb] at hnull
      cases hnull
    | taken _ _ hmis hsource htarget =>
      have hs := hlook _ _ hsource
      have ht := hlook _ _ htarget
      simp only [jumps, jumpsLookedUp, hresolved, hmis]
      generalize look b.source = x at hs
      generalize look' c.source = y at hs
      cases hs with
      | none => exact ⟨rfl, .cons hsource .nil⟩
      | some hsloc =>
        generalize look b.target = x at ht
        generalize look' c.target = y at ht
        cases ht with
        | none => exact ⟨rfl, .cons hsource (.cons htarget .nil)⟩
        | some htloc =>
          refine ⟨by simp only [hsloc, htloc], ?_⟩
          exact .cons hsource (.cons htarget hmatched)

theorem BranchesMatch.isNull_eq {b c : Branch} (h : BranchesMatch A b c) : c.isNull = b.isNull := by
  cases h with
  | padding _ => rfl
  | taken hb hc _ _ _ => rw [hb, hc]

/-- The branches in front of the padding match, and so does what follows them. -/
theorem taken_matched {bs cs : List Branch} (h : List.Forall₂ (BranchesMatch A) bs cs) :
    List.Forall₂ (BranchesMatch A) (bs.takeWhile fun b => !b.isNull)
        (cs.takeWhile fun b => !b.isNull) ∧
      List.Forall₂ (BranchesMatch A) (bs.dropWhile fun b => !b.isNull)
        (cs.dropWhile fun b => !b.isNull) := by
  induction h with
  | nil => exact ⟨.nil, .nil⟩
  | @cons b c bs cs hbc hrest ih =>
    simp only [List.takeWhile_cons, List.dropWhile_cons, hbc.isNull_eq]
    split
    · exact ⟨.cons hbc ih.1, ih.2⟩
    · exact ⟨.nil, .cons hbc hrest⟩

theorem stray_matched {bs cs : List Branch} (h : List.Forall₂ (BranchesMatch A) bs cs) :
    (cs.find? fun b => !b.isNull).isSome = (bs.find? fun b => !b.isNull).isSome := by
  induction h with
  | nil => rfl
  | @cons b c bs cs hbc _ ih =>
    simp only [List.find?_cons, hbc.isNull_eq]
    cases b.isNull with
    | false => rfl
    | true => exact ih

theorem stack_congr (hlook : Matched A look look') {bs cs : List Branch}
    (h : List.Forall₂ (BranchesMatch A) bs cs) :
    (stack look' cs).resolved = (stack look bs).resolved ∧
      List.Forall₂ A (stackLookedUp look bs) (stackLookedUp look' cs) := by
  obtain ⟨htaken, hpadding⟩ := taken_matched h
  have hstray := stray_matched hpadding
  have hjumps := jumps_congr hlook htaken fun b hb => by
    simpa using List.mem_takeWhile_imp hb
  simp only [stack, stackLookedUp]
  generalize (cs.dropWhile fun b => !b.isNull).find? (fun b => !b.isNull) = y at hstray
  cases hx : (bs.dropWhile fun b => !b.isNull).find? fun b => !b.isNull with
  | none =>
    rw [hx, Option.isSome_none, Option.isSome_eq_false_iff, Option.isNone_iff_eq_none] at hstray
    subst hstray
    exact hjumps
  | some stray =>
    rw [hx, Option.isSome_some, Option.isSome_iff_exists] at hstray
    obtain ⟨stray', rfl⟩ := hstray
    exact ⟨rfl, .nil⟩

/-- Samples whose addresses match are resolved alike, by look-ups that find matching addresses at
the same locations. -/
theorem resolution_congr (hlook : Matched A look look') {e f : Sample} (h : SamplesMatch A e f)
    (command : Option Nat) : (resolution look' command f).2 = (resolution look command e).2 := by
  have hip := hlook _ _ h.ip
  have hframes := frames_congr hlook h.callchain (written look e.ip) (written look' f.ip)
  have hstack := (stack_congr hlook h.branches).1
  simp only [resolution, h.thread, hip.map_eq, hip.isSome_eq, hframes.1, hframes.2, hstack]

theorem sampleLookedUp_matched (hlook : Matched A look look') {e f : Sample}
    (h : SamplesMatch A e f) : List.Forall₂ A (sampleLookedUp look e) (sampleLookedUp look' f) :=
  .cons h.ip (List.rel_append (lookedUp_matched h.callchain) (stack_congr hlook h.branches).2)

namespace Twin

theorem sample (h : Twin R s t) {e f : Sample}
    (hef : SamplesMatch (fun a b =>
      (s.spaceOf e.pid).attribution a = (t.spaceOf e.pid).attribution b) e f) :
    (t.sample f).answer.2 = (s.sample e).answer.2 ∧
      Twin R (s.sample e).state (t.sample f).state := by
  have hlook : Matched (fun a b =>
      (s.spaceOf e.pid).attribution a = (t.spaceOf e.pid).attribution b)
      (s.hitOf e.thread) (t.hitOf e.thread) := fun a b hab => h.location hab
  rw [answer_sample, answer_sample, state_sample, state_sample, hef.thread, h.commands]
  exact ⟨resolution_congr hlook hef _, h.resolveAll (sampleLookedUp_matched hlook hef)⟩

/-- Twins stay twins when they put a mapping on record for which their spaces stay related. -/
theorem known (h : Twin R s t) {e f : Mmap} {id : Nat} (hpid : f.pid = e.pid)
    (hname : f.filename = e.filename) (hkernel : f.kernel = e.kernel)
    (hplaced : R (s.placed e id).state (t.placed f id).state) :
    Twin R (s.known e id) (t.known f id) where
  steady := ⟨steady_known h.steady.1 e id, steady_known h.steady.2 f id⟩
  keeps := h.keeps
  images := by
    simp only [Session.known, remember, mapped, h.images, hname, hkernel]
  commands := h.commands
  records other := by
    simp only [Session.known, remember, mapped]
    by_cases ho : other = id
    · subst ho
      rw [Index.find?_insert_self, Index.find?_insert_self]
      simp only [Option.map_some, Mapping.reported, recordOf, h.images, hname, hkernel]
    · rw [Index.find?_insert_of_ne _ _ ho, Index.find?_insert_of_ne _ _ ho]
      exact h.records other
  processes := by
    simp only [Session.known, remember, mapped, hpid]
    exact (h.processes.ensure h.fresh e.pid kernelPid).2.put hplaced e.pid
  fresh := by
    simp only [Session.known, remember, mapped, Processes.page_put, Processes.page_ensure]
    exact h.fresh

theorem withCommands (h : Twin R s t) (commands : Commands) :
    Twin R { s with commands := commands } { t with commands := commands } :=
  ⟨⟨⟨h.steady.1.page, h.steady.1.spaces⟩, ⟨h.steady.2.page, h.steady.2.spaces⟩⟩, h.keeps, h.images,
    rfl, h.records, h.processes, h.fresh⟩

theorem fork (h : Twin R s t) (e : Lineage) : Twin R (s.fork e).state (t.fork e).state := by
  simp only [Session.fork, h.commands]
  split
  · exact h.withCommands _
  · exact (h.ensure e.pid e.ppid).withCommands _

theorem nameThread (h : Twin R s t) (e : Naming) :
    Twin R (s.nameThread e).state (t.nameThread e).state := by
  simp only [Session.nameThread, h.commands]
  exact (h.ensure e.pid kernelPid).withCommands _

/-- Twins have the same mappings that no address was resolved into. -/
theorem unsampled (h : Twin R s t) : t.unsampled = s.unsampled := by
  refine (unsampled_ascending t).eq_of_mem_iff (unsampled_ascending s) ?_
  intro id
  rw [mem_unsampled, mem_unsampled, h.records id]

end Twin

end Session
end Unslide
