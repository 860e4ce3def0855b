import Unslide.Proofs.Json.Values
import Unslide.Record.Writer

/-!
# Unslide.Proofs.Record

Reading undoes writing for records. The members that a record is written with are taken apart into
name, text and value (`parts`): each text spells its value, and from the values the record is put
together again.

* `eventOf_parts`: the values of the parts of a record are those it is read from.
* `membersFrom_parts`: the parts are read member by member, the kind first.
* `read_written`: any record in range is read back from its line, which has no control character.
-/

namespace Unslide
namespace Record

open Json

/-- A member of an object: its name, how it is written and what that means. -/
structure Part where
  name : String
  written : List Char
  meant : Value

namespace Part

def number (name : String) (n : Nat) : Part := ⟨name, Json.number n, .natural n⟩

def flag (name : String) (b : Bool) : Part := ⟨name, Json.flag b, .flag b⟩

def text (name : String) (s : String) : Part := ⟨name, quoted s, .text s⟩

def member (p : Part) : String × Value := (p.name, p.meant)

def source (p : Part) : List Char := Json.member p.name p.written

def Spelled (p : Part) (height : Nat) : Prop := Spells p.written p.meant height

end Part

def branchParts (b : Branch) : List Part :=
  [.number "from_ip" b.source, .number "to_ip" b.target, .flag "mispredicted" b.mispredicted]

def branchMeant (b : Branch) : Value := .object ((branchParts b).map Part.member)

def lineageParts (e : Lineage) : List Part :=
  [.number "pid" e.pid, .number "ppid" e.ppid, .number "tid" e.tid, .number "ptid" e.ptid]

/-- The members of a record without its kind. -/
def parts : Event → List Part
  | .mmap e =>
    [.number "pid" e.pid, .number "tid" e.tid, .number "start" e.start, .number "len" e.len,
      .number "pgoff" e.pgoff, .text "filename" e.filename, .flag "is_kernel" e.kernel]
  | .fork e => lineageParts e
  | .exit e => lineageParts e
  | .comm e => [.number "pid" e.pid, .number "tid" e.tid, .text "comm" e.comm]
  | .sample e =>
    [.number "pid" e.pid, .number "tid" e.tid, .number "ip" e.ip,
      ⟨"callchain", array (e.callchain.map Json.number), .array (e.callchain.map .natural)⟩,
      ⟨"branch_stack", array (e.branches.map branchJson), .array (e.branches.map branchMeant)⟩]

theorem members_eq (e : Event) : members e = (parts e).map fun p => (p.name, p.written) := by
  cases e <;> rfl

/-! ## Values read -/

theorem integer_natural {n limit : Nat} (h : n ≤ limit) (wanted : String) :
    integer limit wanted (.natural n) = .ok n := if_pos h

theorem word32_natural {n : Nat} (h : n ≤ topId) : word32 (.natural n) = .ok n :=
  integer_natural h "u32"

theorem word64_natural {n : Nat} (h : n ≤ top) : word64 (.natural n) = .ok n :=
  integer_natural h "u64"

theorem each_map {α : Type} {read : Value → Except Mismatch α} {meant : α → Value} {xs : List α}
    (h : ∀ x ∈ xs, read (meant x) = .ok x) : each read (xs.map meant) = .ok xs := by
  induction xs with
  | nil => rfl
  | cons x xs ih =>
    have hx := h x List.mem_cons_self
    have hxs := ih fun y hy => h y (List.mem_cons_of_mem _ hy)
    simp only [List.map_cons, each, hx, hxs]

-- A record is put together by unfolding its layout over the names of its members.
attribute [simp] Layout.checkMembers Layout.examine Layout.field? Layout.required Layout.optional
  Layout.valueAt? Layout.nameAt Layout.checkLength Field.of Part.member Part.number Part.flag
  Part.text string flag

@[simp] theorem map_ok {α β : Type} (f : α → β) (a : α) :
    (Except.ok a : Except Mismatch α).map f = .ok (f a) := rfl

@[simp] theorem map_ok' {α β : Type} (f : α → β) (a : α) :
    f <$> (Except.ok a : Except Mismatch α) = .ok (f a) := rfl

@[simp] theorem ok_bind {α β : Type} (a : α) (f : α → Except Mismatch β) :
    (Except.ok a >>= f) = f a := rfl

theorem branch_meant {b : Branch} (hs : b.source ≤ top) (ht : b.target ≤ top) :
    branch (branchMeant b) = .ok b := by
  simp [branch, branchMeant, branchParts, branchOf, branchLayout, List.lookup_cons, word64_natural hs,
    word64_natural ht]

theorem mmapOf_parts {e : Mmap} (he : (Event.mmap e).InRange) :
    mmapOf (.named ((parts (.mmap e)).map Part.member)) = .ok e := by
  obtain ⟨hpid, htid, hstart, hlen, hpgoff⟩ := he
  simp [parts, mmapOf, mmapLayout, List.lookup_cons, word32_natural hpid, word32_natural htid,
    word64_natural hstart, word64_natural hlen, word64_natural hpgoff]

theorem lineageOf_parts {e : Lineage}
    (he : e.pid ≤ topId ∧ e.ppid ≤ topId ∧ e.tid ≤ topId ∧ e.ptid ≤ topId) :
    lineageOf (.named ((lineageParts e).map Part.member)) = .ok e := by
  obtain ⟨hpid, hppid, htid, hptid⟩ := he
  simp [lineageParts, lineageOf, lineageLayout, List.lookup_cons, word32_natural hpid,
    word32_natural hppid, word32_natural htid, word32_natural hptid]

theorem namingOf_parts {e : Naming} (he : (Event.comm e).InRange) :
    namingOf (.named ((parts (.comm e)).map Part.member)) = .ok e := by
  obtain ⟨hpid, htid⟩ := he
  simp [parts, namingOf, namingLayout, List.lookup_cons, word32_natural hpid, word32_natural htid]

theorem sampleOf_parts {e : Sample} (he : (Event.sample e).InRange) :
    sampleOf (.named ((parts (.sample e)).map Part.member)) = .ok e := by
  obtain ⟨hpid, htid, hip, hframes, hbranches⟩ := he
  have hchain : sequence word64 (.array (e.callchain.map .natural)) = .ok e.callchain :=
    each_map fun a ha => word64_natural (hframes a ha)
  have hstack : sequence branch (.array (e.branches.map branchMeant)) = .ok e.branches :=
    each_map fun b hb => branch_meant (hbranches b hb).1 (hbranches b hb).2
  simp [parts, sampleOf, sampleLayout, List.lookup_cons, word32_natural hpid, word32_natural htid,
    word64_natural hip, hchain, hstack]

/-- A record is put together again from what its members mean. -/
theorem eventOf_parts {e : Event} (he : e.InRange) :
    eventOf (kindOf e) (.named ((parts e).map Part.member)) = .ok e := by
  cases e with
  | mmap e => exact congrArg (Except.map Event.mmap) (mmapOf_parts he)
  | fork e => exact congrArg (Except.map Event.fork) (lineageOf_parts he)
  | exit e => exact congrArg (Except.map Event.exit) (lineageOf_parts he)
  | comm e => exact congrArg (Except.map Event.comm) (namingOf_parts he)
  | sample e => exact congrArg (Except.map Event.sample) (sampleOf_parts he)

/-! ## Texts read -/

theorem spelled_number {n : Nat} (hn : n ≤ top) (name : String) : (Part.number name n).Spelled 2 :=
  (spells_number hn).mono (by decide)

theorem spelled_flag (b : Bool) (name : String) : (Part.flag name b).Spelled 2 :=
  (spells_flag b).mono (by decide)

theorem spelled_text (s name : String) : (Part.text name s).Spelled 2 :=
  (spells_quoted s).mono (by decide)

theorem le_top_of_le_topId {n : Nat} (h : n ≤ topId) : n ≤ top := Nat.le_trans h (by decide)

theorem spells_branch {b : Branch} (hs : b.source ≤ top) (ht : b.target ≤ top) :
    Spells (branchJson b) (branchMeant b) 1 := by
  have hparts : ∀ p ∈ branchParts b, Spells p.written p.meant 0 := by
    intro p hp
    simp only [branchParts, List.mem_cons, List.not_mem_nil, or_false] at hp
    rcases hp with hp | hp | hp <;> subst hp
    · exact spells_number hs
    · exact spells_number ht
    · exact spells_flag b.mispredicted
  exact spells_object Part.name hparts

theorem spelled_lineage {e : Lineage}
    (he : e.pid ≤ topId ∧ e.ppid ≤ topId ∧ e.tid ≤ topId ∧ e.ptid ≤ topId) :
    ∀ p ∈ lineageParts e, p.Spelled 2 := by
  obtain ⟨hpid, hppid, htid, hptid⟩ := he
  simp only [lineageParts, List.forall_mem_cons, List.not_mem_nil, false_implies, implies_true,
    and_true]
  exact ⟨spelled_number (le_top_of_le_topId hpid) _, spelled_number (le_top_of_le_topId hppid) _,
    spelled_number (le_top_of_le_topId htid) _, spelled_number (le_top_of_le_topId hptid) _⟩

theorem spelled_parts {e : Event} (he : e.InRange) : ∀ p ∈ parts e, p.Spelled 2 := by
  cases e with
  | mmap e =>
    obtain ⟨hpid, htid, hstart, hlen, hpgoff⟩ := he
    simp only [parts, List.forall_mem_cons, List.not_mem_nil, false_implies, implies_true, and_true]
    exact ⟨spelled_number (le_top_of_le_topId hpid) _, spelled_number (le_top_of_le_topId htid) _,
      spelled_number hstart _, spelled_number hlen _, spelled_number hpgoff _, spelled_text _ _,
      spelled_flag _ _⟩
  | fork e => exact spelled_lineage he
  | exit e => exact spelled_lineage he
  | comm e =>
    obtain ⟨hpid, htid⟩ := he
    simp only [parts, List.forall_mem_cons, List.not_mem_nil, false_implies, implies_true, and_true]
    exact ⟨spelled_number (le_top_of_le_topId hpid) _, spelled_number (le_top_of_le_topId htid) _,
      spelled_text _ _⟩
  | sample e =>
    obtain ⟨hpid, htid, hip, hframes, hbranches⟩ := he
    have hchain := spells_array fun a ha => spells_number (hframes a ha)
    have hstack := spells_array fun b hb => spells_branch (hbranches b hb).1 (hbranches b hb).2
    simp only [parts, List.forall_mem_cons, List.not_mem_nil, false_implies, implies_true, and_true]
    exact ⟨spelled_number (le_top_of_le_topId hpid) _, spelled_number (le_top_of_le_topId htid) _,
      spelled_number hip _, hchain.mono (by decide), hstack⟩

/-- No member has the name that is kept for the kind. -/
theorem name_ne_kindKey (e : Event) : ∀ p ∈ parts e, p.name ≠ kindKey := by
  cases e with
  | mmap e => simp [parts, kindKey]
  | fork e => simp [parts, lineageParts, kindKey]
  | exit e => simp [parts, lineageParts, kindKey]
  | comm e => simp [parts, kindKey]
  | sample e => simp [parts, kindKey]

theorem value_spelled {cs : List Char} {v : Value} {height : Nat} (h : Spells cs v height)
    (hheight : height < nesting - 1) (texts : List (List Char)) {c : Char} (hc : Ends c)
    (rest : List Char) :
    value (cs ++ (continued texts ++ c :: rest)) = .ok (v, continued texts ++ c :: rest) := by
  refine h.reads_continued ?_ hheight texts hc rest
  simp only [stepsFor, List.length_append]
  omega

/-- The members behind the kind. By induction on them: each takes one step. -/
theorem membersFrom_parts (k : Kind) {ps : List Part} (hps : ∀ p ∈ ps, p.Spelled 2)
    (hnames : ∀ p ∈ ps, p.name ≠ kindKey) (rest : List Char) {budget : List Char}
    (hbudget : ps.length < budget.length) :
    membersFrom budget (some k) false (continued (ps.map Part.source) ++ '}' :: rest) =
      .ok ((k, ps.map Part.member), rest) := by
  induction ps generalizing budget with
  | nil =>
    cases budget with
    | nil => cases hbudget
    | cons _ budget => rfl
  | cons p ps ih =>
    cases budget with
    | nil => cases hbudget
    | cons _ budget =>
      have hp := hps p List.mem_cons_self
      have hname := hnames p List.mem_cons_self
      have hvalue := value_spelled hp (by decide) (ps.map Part.source) (.inr (.inr rfl)) rest
      have hmore := ih (fun o ho => hps o (List.mem_cons_of_mem _ ho))
        (fun o ho => hnames o (List.mem_cons_of_mem _ ho)) (Nat.lt_of_succ_lt_succ hbudget)
      rw [List.map_cons, continued_cons, List.cons_append, List.append_assoc, membersFrom,
        Part.source, nextKey_next]
      simp only [if_neg hname, colon_next, hvalue, hmore, List.map_cons, Part.member]

theorem kindAt_quoted (k : Kind) (rest : List Char) :
    kindAt (quoted k.name ++ rest) = .ok (k, rest) := by
  have htext := text_escape k.name rest
  rw [quoted, List.cons_append, List.append_assoc, kindAt, skipSpace_of_not_space (by decide)]
  simp only [List.singleton_append, if_true, htext, Kind.ofName?_name]

theorem length_le_continued (texts : List (List Char)) :
    texts.length ≤ (continued texts).length := by
  induction texts with
  | nil => exact Nat.le_refl _
  | cons cs texts ih =>
    rw [continued_cons, List.length_cons, List.length_cons, List.length_append]
    omega

theorem written_eq (e : Event) :
    written e = '{' :: (member kindKey (quoted (kindOf e).name) ++
      continued ((parts e).map Part.source) ++ ['}']) := by
  have hsources : (members e).map (fun m => member m.1 m.2) = (parts e).map Part.source := by
    rw [members_eq, List.map_map]
    rfl
  rw [written, object, List.map_cons, hsources, separated_cons]

/-- The kind of a record is read first, then its members. -/
theorem recordAt_written {e : Event} (he : e.InRange) :
    recordAt (written e) = .ok ((kindOf e, .named ((parts e).map Part.member)), []) := by
  have hlength := length_le_continued ((parts e).map Part.source)
  rw [List.length_map] at hlength
  have hfits : (parts e).length < (member kindKey (quoted (kindOf e).name) ++
      (continued ((parts e).map Part.source) ++ ['}'])).length := by
    simp only [List.length_append, List.length_singleton]
    omega
  have hparts := membersFrom_parts (kindOf e) (spelled_parts he) (name_ne_kindKey e) [] hfits
  have hkind := kindAt_quoted (kindOf e) (continued ((parts e).map Part.source) ++ ['}'])
  rw [written_eq, List.append_assoc, recordAt, skipSpace_of_not_space (by decide)]
  simp only [if_true, membersFrom, nextKey_first, Option.isSome_none, Bool.false_eq_true, if_false,
    colon_next, hkind, hparts]

/-- **Reading undoes writing.** Every record whose numbers are in range is read back from what is
written for it. -/
theorem read_written {e : Event} (he : e.InRange) : read (written e) = .ok e := by
  simp only [read, recordAt_written he, eventOf_parts he]
  rfl

/-- What is written for a record has no control character. -/
theorem prints_written {e : Event} (he : e.InRange) : ∀ c ∈ written e, 32 ≤ c.toNat := by
  have hkind : ∀ c ∈ member kindKey (quoted (kindOf e).name), 32 ≤ c.toNat :=
    prints_member (prints_quoted _) _
  have hparts : ∀ c ∈ continued ((parts e).map Part.source), 32 ≤ c.toNat := by
    refine prints_continued ?_
    intro cs hcs
    obtain ⟨p, hp, heq⟩ := List.mem_map.1 hcs
    rw [← heq]
    exact prints_member (spelled_parts he p hp).prints _
  rw [written_eq]
  refine prints_enclosed (by decide) (by decide) ?_
  intro c hc
  rw [List.mem_append] at hc
  cases hc with
  | inl hc => exact hkind c hc
  | inr hc => exact hparts c hc

end Record
end Unslide
