import Unslide.Proofs.Images
import Unslide.Proofs.Session.Twins
import Unslide.Proofs.Space.Mirror

/-!
# Unslide.Proofs.Session.Rereading

A session that remaps, and beside it a session that reads the remapped records as they are: it does
not remap, and keeps no page offsets. The two give images the same numbers, know the same images of
their mappings, and the spaces of the reader mirror the others. Then an address that was resolved is
found by the reader, as it was rewritten, at the same location. So a complete sample is resolved
alike once it was rewritten, as long as none of its addresses was rewritten as something else.

* `Rereads.hit`: an address.
* `samplesMatch_written`: a sample and what is written for it.
* `Rereads.known`, `Rereads.fork`, `Rereads.nameThread`, `Rereads.sample`: the records of a capture.
-/

namespace Unslide

/-- What a session that remaps writes for a mapping that was placed. -/
def Mmap.written (e : Mmap) (id place : Nat) : Mmap :=
  { e with start := place, len := (e.geometry id).len, pgoff := (e.geometry id).pgoff }

/-- What was written for a sample is of the same kind everywhere: no address of the call chain
became a marker, and no branch became padding. -/
structure Sample.SameKinds (e e' : Sample) : Prop where
  callchain : List.Forall₂ (fun v v' => isMarker v' = isMarker v) e.callchain e'.callchain
  branches : List.Forall₂ (fun b b' => b'.isNull = b.isNull) e.branches e'.branches

/-- The addresses of two resolved samples were found at the same locations. -/
structure ResolvedSample.SameLocations (x y : ResolvedSample) : Prop where
  ip : y.ip = x.ip
  callchain : y.callchain = x.callchain
  branches : y.branches = x.branches

namespace Session

variable {look : Nat → Option Hit}

/-! ## Samples as they are written -/

/-- What was written for an address that was resolved. -/
def WrittenAs (look : Nat → Option Hit) (a b : Nat) : Prop :=
  ∃ hit, look a = some hit ∧ b = hit.address

theorem writtenAs_written {a : Nat} (h : (look a).isSome = true) :
    WrittenAs look a (written look a) := by
  obtain ⟨hit, hhit⟩ := Option.isSome_iff_exists.1 h
  exact ⟨hit, hhit, by simp only [written, hhit]⟩

/-- What is written for a branch that is resolved. -/
def writtenBranch (look : Nat → Option Hit) (b : Branch) : Branch :=
  if b.isNull then b else ⟨written look b.source, written look b.target, b.mispredicted⟩

theorem stack_jumps_of_resolved {bs : List Branch} (h : (jumps look bs).resolved.isSome = true)
    (hreal : ∀ b ∈ bs, b.isNull = false) : (jumps look bs).stack = bs.map (writtenBranch look) := by
  induction bs with
  | nil => rfl
  | cons b rest ih =>
    have hb := hreal b (by simp)
    obtain ⟨hsource, htarget⟩ := isSome_of_jumps h b (by simp)
    obtain ⟨source, hs⟩ := Option.isSome_iff_exists.1 hsource
    obtain ⟨target, ht⟩ := Option.isSome_iff_exists.1 htarget
    simp only [jumps, hs, ht, Option.isSome_map] at h
    have hrest := ih h fun c hc => hreal c (by simp [hc])
    simp only [jumps, hs, ht, hrest, List.map_cons, writtenBranch, written, hb, Bool.false_eq_true,
      if_false]

/-- Of a branch stack that is resolved every branch is rewritten, and the padding is left. -/
theorem stack_of_resolved {bs : List Branch} (h : (stack look bs).resolved.isSome = true) :
    (stack look bs).stack = bs.map (writtenBranch look) := by
  obtain ⟨hstray, hjumps⟩ := stray_of_stack h
  have htaken := stack_jumps_of_resolved hjumps fun b hb => by
    simpa using List.mem_takeWhile_imp hb
  have hpadding : (bs.dropWhile fun b => !b.isNull).map (writtenBranch look) =
      bs.dropWhile fun b => !b.isNull := by
    refine (List.map_congr_left fun b hb => ?_).trans (List.map_id _)
    have hnull : b.isNull = true := by simpa using List.find?_eq_none.1 hstray b hb
    simp only [writtenBranch, hnull, if_true, id]
  simp only [stack, hstray, htaken]
  conv_rhs => rw [← List.takeWhile_append_dropWhile (p := fun b : Branch => !b.isNull) (l := bs),
    List.map_append, hpadding]

/-- No two addresses are written alike. -/
def Apart (look : Nat → Option Hit) : Prop :=
  ∀ a b x y, look a = some x → look b = some y → x.address = y.address → a = b

theorem Apart.written_ne {a b : Nat} (h : Apart look) (ha : (look a).isSome = true)
    (hb : (look b).isSome = true) (hne : a ≠ b) : written look a ≠ written look b := by
  intro hclash
  obtain ⟨x, hx, hxw⟩ := writtenAs_written ha
  obtain ⟨y, hy, hyw⟩ := writtenAs_written hb
  exact hne (h a b x y hx hy (by rw [← hxw, ← hyw, hclash]))

/-- A frame matches what is written for it, unless one is a marker and the other is not. -/
theorem framesMatch_rewritten (h : Apart look) {ip v : Nat} (hip : (look ip).isSome = true)
    (hv : isMarker v = false → v ≠ ip → (look v).isSome = true)
    (hkind : isMarker (rewritten look (written look ip) ip v) = isMarker v) :
    FramesMatch (WrittenAs look) ip (written look ip) v
      (rewritten look (written look ip) ip v) := by
  cases hm : isMarker v with
  | true =>
    rw [rewritten, if_pos hm]
    exact .marker hm
  | false =>
    rw [hm] at hkind
    by_cases heq : v = ip
    · subst heq
      have hwritten : rewritten look (written look v) v v = written look v := by
        simp only [rewritten, hm, Bool.false_eq_true, if_false, if_true]
      rw [hwritten] at hkind ⊢
      exact .own hm hkind
    · have hwritten : rewritten look (written look ip) ip v = written look v := by
        simp only [rewritten, hm, heq, Bool.false_eq_true, if_false]
      rw [hwritten] at hkind ⊢
      have hsome := hv hm heq
      exact .frame hm hkind heq (h.written_ne hsome hip heq) (writtenAs_written hsome)

/-- A branch matches what is written for it, unless one is padding and the other is not. -/
theorem branchesMatch_written {b : Branch}
    (hb : b.isNull = false → (look b.source).isSome = true ∧ (look b.target).isSome = true)
    (hkind : (writtenBranch look b).isNull = b.isNull) :
    BranchesMatch (WrittenAs look) b (writtenBranch look b) := by
  cases hreal : b.isNull with
  | true =>
    rw [writtenBranch, if_pos hreal]
    exact .padding hreal
  | false =>
    obtain ⟨hsource, htarget⟩ := hb hreal
    rw [hreal] at hkind
    rw [writtenBranch, hreal, if_neg Bool.false_ne_true] at hkind ⊢
    exact .taken hreal hkind rfl (writtenAs_written hsource) (writtenAs_written htarget)

/-- A complete sample matches what was written for it, if no two addresses are written alike and
nothing changed its kind. -/
theorem samplesMatch_written (h : Apart look) {e : Sample} {command : Option Nat}
    (hc : (resolution look command e).2.complete = true)
    (hkinds : e.SameKinds (resolution look command e).1) :
    SamplesMatch (WrittenAs look) e (resolution look command e).1 := by
  simp only [resolution, Bool.and_eq_true] at hc
  obtain ⟨⟨hip, hframes⟩, hstack⟩ := hc
  simp only [frames, List.all_eq_true] at hframes
  obtain ⟨hsame, hnull⟩ := hkinds
  simp only [resolution, frames, List.forall₂_map_right_iff, List.forall₂_same] at hsame
  simp only [resolution, stack_of_resolved hstack, List.forall₂_map_right_iff, List.forall₂_same]
    at hnull
  refine ⟨rfl, writtenAs_written hip, ?_, ?_⟩
  · simp only [resolution, frames, List.forall₂_map_right_iff, List.forall₂_same]
    intro v hv
    refine framesMatch_rewritten h hip (fun hm hne => hframes v ?_) (hsame v hv)
    simp [lookedUp, hv, hm, hne]
  · simp only [resolution, stack_of_resolved hstack, List.forall₂_map_right_iff, List.forall₂_same]
    intro b hb
    exact branchesMatch_written (isSome_of_stack hstack b hb) (hnull b hb)

/-! ## Two sessions -/

/-- The session `s` remaps, and `t` reads what `s` wrote. So far everything that was mapped, taken
together, is no larger than `n`. -/
structure Rereads (n : Nat) (s t : Session) : Prop where
  steady : s.Steady ∧ t.Steady
  remaps : s.options.remap = true ∧ isPowerOfTwo s.options.alignment = true
  reads : t.options.remap = false
  page : t.processes.page = 0
  names : t.images.names = s.images.names
  records : ∀ id, (t.mappings.find? id).map Mapping.image = (s.mappings.find? id).map Mapping.image
  processes : s.processes.Related (Space.Mirrors n) t.processes

variable {s t u v : Session} {thread : Thread} {n : Nat}

/-- Where a session remaps, no two addresses of a process are written alike. -/
theorem apart_hitOf (h : s.Steady) (hk : s.options.Keeps) (hremap : s.options.remap = true) :
    Apart (s.hitOf thread) := by
  intro a b x y hx hy hsame
  obtain ⟨c, hc, hca, _, _, rfl⟩ := (hitOf_eq_some_iff h hk).1 hx
  obtain ⟨d, hd, hdb, _, _, rfl⟩ := (hitOf_eq_some_iff h hk).1 hy
  simp only [shown, hremap, Bool.true_eq_false, if_false, Region.placeOf] at hsame
  obtain ⟨hcge, hclt⟩ := hca
  obtain ⟨hdge, hdlt⟩ := hdb
  simp only [Region.stop] at hclt hdlt
  by_cases hcd : c = d
  · subst hcd
    omega
  · have := (h.sound_spaceOf thread.pid).placed_apart hc hd hcd
    simp only [Region.placeEnd] at this
    omega

theorem names_resolve (s : Session) (addr : Nat) (thread : Thread) :
    (s.resolve addr thread).state.images.names = s.images.names := by
  simp only [resolve]
  cases s.finding (s.processes.ensure thread.pid kernelPid).answer.1 addr with
  | nothing => rfl
  | unrecorded id => rfl
  | moved id m place => exact Images.names_record _ _ _
  | found id m hit => exact Images.names_record _ _ _

theorem names_sample (s : Session) (e : Sample) :
    (s.sample e).state.images.names = s.images.names := by
  rw [state_sample]
  generalize sampleLookedUp (s.hitOf e.thread) e = addrs
  induction addrs generalizing s with
  | nil => rfl
  | cons addr rest ih => exact (ih _).trans (names_resolve s addr e.thread)

/-- Where the first mapping has no offset there is nothing to trim. -/
theorem geometry_of_pgoff_zero {e : Mmap} (h : e.pgoff = 0) :
    e.geometry 0 = ⟨e.start, e.len, 0⟩ := by
  have hlate : ¬ e.StartsEarly := by
    intro hearly
    have hlt := hearly.1
    omega
  simp only [Mmap.geometry, if_true, if_neg hlate]

/-- A mapping is registered as it was written: what was trimmed once is not trimmed again. -/
theorem request_written (e : Mmap) (id place : Nat) :
    ((e.written id place).geometry id).request id =
      ((e.geometry id).request id).placedAt place := by
  by_cases hid : id = 0
  · subst hid
    have hpgoff : (e.geometry 0).pgoff = 0 := by
      simp only [Mmap.geometry, if_true]
      split <;> rfl
    have hwritten : (e.written 0 place).pgoff = 0 := hpgoff
    rw [geometry_of_pgoff_zero hwritten, Geometry.request, Geometry.request, hpgoff]
    rfl
  · rw [Mmap.geometry_of_ne_zero _ hid]
    rfl

namespace Rereads

theorem keeps (h : Rereads n s t) : s.options.Keeps ∧ t.options.Keeps :=
  ⟨.inr h.remaps.2, .inl h.reads⟩

theorem fresh (h : Rereads n s t) (m : Nat) :
    Space.Mirrors m (.aligned s.processes.page) (.aligned t.processes.page) := by
  rw [h.page]
  exact .start m _

theorem ensure (h : Rereads n s t) (pid parent : Nat) :
    Space.Mirrors n (s.processes.ensure pid parent).answer.1
        (t.processes.ensure pid parent).answer.1 ∧
      (s.processes.ensure pid parent).state.Related (Space.Mirrors n)
        (t.processes.ensure pid parent).state :=
  h.processes.ensure (h.fresh n) pid parent

/-- What the sessions have to keep to go on side by side. -/
theorem next (h : Rereads n s t) {m : Nat} (hsteady : u.Steady ∧ v.Steady)
    (hoptions : u.options = s.options ∧ v.options = t.options)
    (hpage : v.processes.page = t.processes.page) (hnames : v.images.names = u.images.names)
    (hrecords : ∀ id,
      (v.mappings.find? id).map Mapping.image = (u.mappings.find? id).map Mapping.image)
    (hprocesses : u.processes.Related (Space.Mirrors m) v.processes) : Rereads m u v where
  steady := hsteady
  remaps := by
    rw [hoptions.1]
    exact h.remaps
  reads := by
    rw [hoptions.2]
    exact h.reads
  page := hpage.trans h.page
  names := hnames
  records := hrecords
  processes := hprocesses

/-- An address that was resolved is found by the reader, as it was rewritten, at the same
location. -/
theorem hit (h : Rereads n s t) : Matched (WrittenAs (s.hitOf thread)) (s.hitOf thread)
    (t.hitOf thread) := by
  rintro a b ⟨x, hx, rfl⟩
  obtain ⟨c, hc, hca, m, hm, rfl⟩ := (hitOf_eq_some_iff h.steady.1 h.keeps.1).1 hx
  have hmirrors : Space.Mirrors n (s.spaceOf thread.pid) (t.spaceOf thread.pid) :=
    (h.ensure thread.pid kernelPid).1
  obtain ⟨d, hd, hcontains, hid, hoffset⟩ :=
    hmirrors.block (h.steady.2.sound_spaceOf thread.pid) hc hca
  have hrec := h.records c.id
  rw [hm, Option.map_some, Option.map_eq_some_iff] at hrec
  obtain ⟨m', hm', himage⟩ := hrec
  have hshown : s.shown c a = c.placeOf a := by
    simp only [shown, h.remaps.1, Bool.true_eq_false, if_false]
  rw [← hid] at hm'
  have hfound := (hitOf_eq_some_iff h.steady.2 h.keeps.2).2 ⟨d, hd, hcontains, m', hm', rfl⟩
  rw [hx, hshown, hfound]
  refine .some ?_
  rw [himage, hoffset]

/-! ## The records of a capture -/

theorem fork (h : Rereads n s t) (e : Lineage) : Rereads n (s.fork e).state (t.fork e).state := by
  have hsteady := And.intro (steady_fork h.steady.1 e) (steady_fork h.steady.2 e)
  simp only [Session.fork] at hsteady ⊢
  split
  · rename_i hsame
    simp only [if_pos hsame] at hsteady
    exact h.next hsteady ⟨rfl, rfl⟩ rfl h.names h.records h.processes
  · rename_i hother
    simp only [if_neg hother] at hsteady
    exact h.next hsteady ⟨rfl, rfl⟩ (Processes.page_ensure _ _ _) h.names h.records
      (h.ensure e.pid e.ppid).2

theorem nameThread (h : Rereads n s t) (e : Naming) :
    Rereads n (s.nameThread e).state (t.nameThread e).state :=
  h.next ⟨steady_nameThread h.steady.1 e, steady_nameThread h.steady.2 e⟩ ⟨rfl, rfl⟩
    (Processes.page_ensure _ _ _) h.names h.records (h.ensure e.pid kernelPid).2

/-- A complete sample is resolved alike once it was rewritten, if nothing in it changed its kind. -/
theorem resolved (h : Rereads n s t) {e : Sample} (hc : (s.sample e).answer.2.complete = true)
    (hkinds : e.SameKinds (s.sample e).answer.1) :
    (s.sample e).answer.2.SameLocations (t.sample (s.sample e).answer.1).answer.2 := by
  rw [answer_sample] at hc hkinds ⊢
  have hapart : Apart (s.hitOf e.thread) := apart_hitOf h.steady.1 h.keeps.1 h.remaps.1
  have hmatch := samplesMatch_written hapart hc hkinds
  have halike := resolution_congr h.hit hmatch (t.commands.idOf? e.thread)
  rw [answer_sample, show (resolution (s.hitOf e.thread) (s.commands.idOf? e.thread) e).1.thread =
    e.thread from rfl, halike]
  exact ⟨rfl, rfl, rfl⟩

/-- Whatever becomes of a sample, the sessions go on side by side. -/
theorem sample (h : Rereads n s t) {e f : Sample} (hpid : f.pid = e.pid) :
    Rereads n (s.sample e).state (t.sample f).state := by
  have hs := opened_sample s e
  have ht := opened_sample t f
  rw [hpid] at ht
  refine h.next ⟨steady_sample h.steady.1 e, steady_sample h.steady.2 f⟩ ⟨hs.options, ht.options⟩
    ?_ ?_ ?_ ?_
  · rw [ht.processes, Processes.page_ensure]
  · rw [names_sample, names_sample, h.names]
  · intro id
    rw [hs.images, ht.images, h.records]
  · rw [hs.processes, ht.processes]
    exact (h.ensure e.pid kernelPid).2

/-- A mapping that is granted, and cuts in place, is granted for the reader as it was written, as
long as there is room for it. -/
theorem known (h : Rereads n s t) {e : Mmap} {id : Nat} (hok : (s.placed e id).answer = .ok ())
    (hcuts : (s.spaceOf e.pid).CutsInPlace ((e.geometry id).request id))
    (hroom : n + (s.register e id).answer.1.len ≤ top) :
    (t.register (s.register e id).answer.1 id).answer.2 = .ok () ∧
      Rereads (n + (s.register e id).answer.1.len) (s.register e id).state
        (t.register (s.register e id).answer.1 id).state := by
  obtain ⟨hstate, m, hm, hanswer⟩ := register_granted h.steady.1 h.keeps.1 hok
  have hwritten : (s.register e id).answer.1 = e.written id m := by
    rw [hanswer]
    simp only [h.remaps.1, Bool.true_eq_false, if_false]
    rfl
  rw [hwritten] at hroom ⊢
  have hmirrors : Space.Mirrors n (s.spaceOf e.pid) (t.spaceOf e.pid) :=
    (h.ensure e.pid kernelPid).1
  obtain ⟨hgranted, hplaced⟩ := hmirrors.reserve (h.steady.1.sound_spaceOf e.pid)
    (h.steady.2.sound_spaceOf e.pid) hok hcuts hm hroom
  have htplaced : t.placed (e.written id m) id =
      (t.spaceOf e.pid).reserve (((e.geometry id).request id).placedAt m) true := by
    rw [placed, request_written]
    rfl
  rw [← htplaced] at hgranted hplaced
  obtain ⟨htstate, _, -, htanswer⟩ := register_granted h.steady.2 h.keeps.2 hgranted
  obtain ⟨hnames, hnumber⟩ := Images.intern_congr h.names e.filename e.kernel
  refine ⟨by rw [htanswer], ?_⟩
  rw [hstate, htstate]
  refine h.next ⟨steady_known h.steady.1 e id, steady_known h.steady.2 _ id⟩ ⟨rfl, rfl⟩ ?_ ?_ ?_ ?_
  · simp only [Session.known, remember, mapped, Processes.page_put, Processes.page_ensure]
  · exact hnames
  · intro other
    simp only [Session.known, remember, mapped]
    by_cases ho : other = id
    · subst ho
      rw [Index.find?_insert_self, Index.find?_insert_self]
      exact congrArg some hnumber
    · rw [Index.find?_insert_of_ne _ _ ho, Index.find?_insert_of_ne _ _ ho]
      exact h.records other
  · have hkept := (h.ensure e.pid kernelPid).2.imp fun _ _ hm =>
      hm.mono (Nat.le_add_right n (e.geometry id).len)
    exact hkept.put hplaced e.pid

end Rereads

end Session
end Unslide
