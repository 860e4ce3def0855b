import Mathlib.Data.List.Forall2
import Unslide.Proofs.Session.Resolution

/-!
# Unslide.Proofs.Session.Pointwise

What is told of the addresses of a sample, one address at a time. Every look-up counts a hit and may
open the space of the process, and a call chain is rewritten while it is walked. Yet each of its
values is replaced as if it were the only one, and what the sample is told to be can be read off
the look-ups of single addresses in the session as it was before.

* `replaced_rewritten`: what is written for a value of a call chain.
* `located_prefix`: which addresses of a call chain have a location in the answer.
* `sample_pointwise`: what is told of a sample.
-/

namespace Unslide
namespace Session

/-- What is written for a value of a call chain, `ip` being what was written for the address
`sampled`. -/
inductive Replaced (look : Nat → Option Hit) (ip sampled : Nat) : Nat → Nat → Prop where
  | marker {value : Nat} : firstMarker ≤ value → Replaced look ip sampled value value
  | own : sampled < firstMarker → Replaced look ip sampled sampled ip
  | found {value : Nat} {hit : Hit} : value < firstMarker → value ≠ sampled →
      look value = some hit → Replaced look ip sampled value hit.address
  | missed {value : Nat} : value < firstMarker → value ≠ sampled → look value = none →
      Replaced look ip sampled value value

/-- What a call chain comes to, told by what its addresses resolve to. -/
structure ChainTold (look : Nat → Option Hit) (ip sampled : Nat) (values : List Nat)
    (c : ResolvedChain) : Prop where
  replaced : List.Forall₂ (Replaced look ip sampled) values c.values
  /-- The entries are the locations of the addresses in front of the first one that is not
  resolved. -/
  entries : ∃ known rest, lookedUp sampled values = known ++ rest ∧
    c.entries.map some = known.map (fun value => (look value).map Hit.location) ∧
    ∀ value, rest.head? = some value → look value = none
  complete : c.complete = true ↔
    ∀ value ∈ values, value < firstMarker → value ≠ sampled → (look value).isSome = true

/-- What a sample comes to, told by what its addresses resolve to in the session before it. -/
structure SampleTold (s : Session) (e e' : Sample) (r : ResolvedSample) : Prop where
  located : r.ip = (s.hitOf e.thread e.ip).map Hit.location
  found : ∀ hit, s.hitOf e.thread e.ip = some hit → e'.ip = hit.address
  missed : s.hitOf e.thread e.ip = none → e'.ip = e.ip
  /-- The call chain, and with it the whole sample, is complete or not. -/
  chain : ∃ complete,
    ChainTold (s.hitOf e.thread) e'.ip e.ip e.callchain ⟨e'.callchain, r.callchain, complete⟩ ∧
      (r.complete = true ↔ (s.hitOf e.thread e.ip).isSome = true ∧ complete = true ∧
        (e.branches ≠ [] → (s.branches e.thread e.branches).answer.resolved.isSome = true))

variable {look : Nat → Option Hit} {sampled : Nat}

theorem mem_lookedUp {values : List Nat} {value : Nat} :
    value ∈ lookedUp sampled values ↔ value ∈ values ∧ value < firstMarker ∧ value ≠ sampled := by
  simp [lookedUp, isMarker_eq_false_iff]

theorem replaced_rewritten (look : Nat → Option Hit) (ip sampled value : Nat) :
    Replaced look ip sampled value (rewritten look ip sampled value) := by
  cases hmarker : isMarker value with
  | true =>
    rw [rewritten, if_pos hmarker]
    exact .marker (isMarker_iff.1 hmarker)
  | false =>
    have hbelow := isMarker_eq_false_iff.1 hmarker
    simp only [rewritten, hmarker, Bool.false_eq_true, if_false]
    split
    · rename_i heq
      subst heq
      exact .own hbelow
    · rename_i hne
      cases hlook : look value with
      | some hit =>
        simp only [written, hlook]
        exact .found hbelow hne hlook
      | none =>
        simp only [written, hlook]
        exact .missed hbelow hne hlook

theorem located_prefix (look : Nat → Option Hit) (addrs : List Nat) :
    ∃ known rest, addrs = known ++ rest ∧
      (located (addrs.map fun addr => (look addr).map Hit.location)).map some =
        known.map (fun addr => (look addr).map Hit.location) ∧
      ∀ addr, rest.head? = some addr → look addr = none := by
  induction addrs with
  | nil => exact ⟨[], [], rfl, rfl, by simp⟩
  | cons addr others ih =>
    cases hlook : look addr with
    | none =>
      refine ⟨[], addr :: others, rfl, ?_, ?_⟩
      · simp [located, hlook]
      · simp [hlook]
    | some hit =>
      obtain ⟨known, rest, hsplit, hlocated, hfirst⟩ := ih
      refine ⟨addr :: known, rest, by rw [hsplit, List.cons_append], ?_, hfirst⟩
      simp [located, hlook, hlocated]

theorem chainTold_frames (look : Nat → Option Hit) (ip sampled : Nat) (values : List Nat) :
    ChainTold look ip sampled values (frames look ip sampled values) where
  replaced := by
    simp only [frames, List.forall₂_map_right_iff, List.forall₂_same]
    intro value _
    exact replaced_rewritten look ip sampled value
  entries := located_prefix look (lookedUp sampled values)
  complete := by
    simp only [frames, List.all_eq_true, mem_lookedUp, and_imp]

/-- An empty branch stack is always resolved. -/
theorem resolved_branches_iff (s : Session) (thread : Thread) (bs : List Branch) :
    (bs ≠ [] → (s.branches thread bs).answer.resolved.isSome = true) ↔
      (stack (s.hitOf thread) bs).resolved.isSome = true := by
  rw [answer_branches]
  cases bs with
  | nil => exact ⟨fun _ => rfl, fun h _ => h⟩
  | cons b rest => exact ⟨fun h => h (List.cons_ne_nil b rest), fun h _ => h⟩

/-- **A sample is told by its addresses.** In whatever state a session is, what is found for a call
chain, and what is found for a sample and written in its place, is what the look-ups of the single
addresses in that state say. -/
theorem sample_pointwise (s : Session) :
    (∀ ip sampled thread values,
      ChainTold (s.hitOf thread) ip sampled values (s.chain ip sampled thread values).answer) ∧
    ∀ e, s.SampleTold e (s.sample e).answer.1 (s.sample e).answer.2 := by
  constructor
  · intro ip sampled thread values
    rw [answer_chain]
    exact chainTold_frames _ ip sampled values
  · intro e
    rw [answer_sample]
    have htold := chainTold_frames (s.hitOf e.thread) (written (s.hitOf e.thread) e.ip) e.ip
      e.callchain
    refine ⟨rfl, ?_, ?_, _, htold, ?_⟩
    · intro hit hhit
      simp only [resolution, written, hhit]
    · intro hnone
      simp only [resolution, written, hnone]
    · rw [resolved_branches_iff]
      simp only [resolution, frames, Bool.and_eq_true, and_assoc]

/-- An address in the middle of the chain lies nowhere. The one behind it is replaced all the same,
but has no entry, and the sample is not complete. -/
theorem sample_pointwise_partly_resolved :
    let e : Sample := ⟨7, 7, 0x10010, [top, 0x10020, 0x10010, 0x99000, 0x11000], []⟩
    let e' : Sample := ⟨7, 7, 0x10, [top, 0x20, 0x10, 0x99000, 0x1000], []⟩
    let r : ResolvedSample := ⟨⟨7, 7⟩, none, some ⟨0, 0x10⟩, [⟨0, 0x20⟩], [], false⟩
    let c : ResolvedChain := ⟨e'.callchain, r.callchain, false⟩
    (twoPages.sample e).answer = (e', r) ∧ twoPages.SampleTold e e' r ∧
      (twoPages.chain 0x10 0x10010 ⟨7, 7⟩ e.callchain).answer = c ∧
      ChainTold (twoPages.hitOf ⟨7, 7⟩) 0x10 0x10010 e.callchain c := by
  intro e e' r c
  obtain ⟨hchains, hsamples⟩ := sample_pointwise twoPages
  have hsample : (twoPages.sample e).answer = (e', r) := by decide
  have hchain : (twoPages.chain 0x10 0x10010 ⟨7, 7⟩ e.callchain).answer = c := by decide
  have htold := hsamples e
  have hwalked := hchains 0x10 0x10010 ⟨7, 7⟩ e.callchain
  rw [hsample] at htold
  rw [hchain] at hwalked
  exact ⟨hsample, htold, hchain, hwalked⟩

end Session
end Unslide
