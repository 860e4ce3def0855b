import Mathlib.Data.List.TakeWhile
import Unslide.Proofs.Json.Continuing
import Unslide.Record.Reader

/-!
# Unslide.Proofs.Trailing

A record that is read from a line is also read from the line with space behind it. The elements and
members of a record are read from the front of what is left of the line, in a number of steps that
is taken from its length; with more behind them they are read in the same steps, of which there are
then only more.

* `readsOn`: values, lists and objects, in any number of steps that suffices.
* `continues_recordAt`: the kind and the fields of a record.
* `read_append_space`: a record with space behind it.
-/

namespace Unslide
namespace Json

variable {w : List Char}

theorem continues_nextItem (w : List Char) (first : Bool) : Continues w (nextItem first) := by
  intro text found rest h
  simp only [nextItem] at h ⊢
  split at h
  · cases h
  rename_i c more hskip
  simp only [skipSpace_append hskip]
  by_cases hend : c = ']'
  · rw [if_pos hend] at h ⊢
    cases h
    rfl
  rw [if_neg hend] at h ⊢
  by_cases hfirst : first = true
  · rw [if_pos hfirst] at h ⊢
    cases h
    rfl
  rw [if_neg hfirst] at h ⊢
  by_cases hcomma : c = ','
  · rw [if_pos hcomma] at h ⊢
    split at h
    · cases h
    rename_i d others hnext
    simp only [skipSpace_append hnext]
    by_cases htrailing : d = ']'
    · rw [if_pos htrailing] at h
      cases h
    · rw [if_neg htrailing] at h ⊢
      cases h
      rfl
  · rw [if_neg hcomma] at h
    cases h

theorem continues_key (w : List Char) : Continues w key := by
  intro text name rest h
  cases text with
  | nil => cases h
  | cons c more =>
    simp only [List.cons_append, key] at h ⊢
    by_cases hquote : c = '"'
    · rw [if_pos hquote] at h ⊢
      exact continues_text w _ _ _ h
    · rw [if_neg hquote] at h
      split at h <;> cases h

theorem continues_nextKey (w : List Char) (first : Bool) : Continues w (nextKey first) := by
  intro text found rest h
  simp only [nextKey] at h ⊢
  split at h
  · cases h
  rename_i c more hskip
  simp only [skipSpace_append hskip]
  by_cases hend : c = '}'
  · rw [if_pos hend] at h ⊢
    cases h
    rfl
  rw [if_neg hend] at h ⊢
  by_cases hfirst : first = true
  · rw [if_pos hfirst] at h ⊢
    split at h
    · cases h
    · rename_i name behind hkey
      cases h
      have hmore := continues_key w _ _ _ hkey
      rw [List.cons_append] at hmore
      rw [hmore]
  rw [if_neg hfirst] at h ⊢
  by_cases hcomma : c = ','
  · rw [if_pos hcomma] at h ⊢
    split at h
    · cases h
    · rename_i name behind hkey
      cases h
      cases hnext : skipSpace more with
      | nil =>
        rw [hnext] at hkey
        cases hkey
      | cons d others =>
        rw [hnext] at hkey
        have hmore := continues_key w _ _ _ hkey
        rw [List.cons_append] at hmore
        rw [skipSpace_append hnext, hmore]
  · rw [if_neg hcomma] at h
    cases h

theorem colon_append {text rest : List Char} (h : colon text = .ok rest) (w : List Char) :
    colon (text ++ w) = .ok (rest ++ w) := by
  simp only [colon] at h ⊢
  split at h
  · cases h
  rename_i c more hskip
  simp only [skipSpace_append hskip]
  by_cases hc : c = ':'
  · rw [if_pos hc] at h ⊢
    cases h
    rfl
  · rw [if_neg hc] at h
    cases h

/-- What is read in some steps is read in front of `w` in any more of them. -/
structure ReadsOn (w : List Char) (fuel more : Nat) : Prop where
  value : ∀ {depth text v rest}, valueWith fuel depth text = .ok (v, rest) →
    valueWith (fuel + more) depth (text ++ w) = .ok (v, rest ++ w)
  items : ∀ {depth first text items rest}, itemsWith fuel depth first text = .ok (items, rest) →
    itemsWith (fuel + more) depth first (text ++ w) = .ok (items, rest ++ w)
  members : ∀ {depth first text members rest},
    membersWith fuel depth first text = .ok (members, rest) →
    membersWith (fuel + more) depth first (text ++ w) = .ok (members, rest ++ w)

section Steps

variable {fuel more depth : Nat} {first : Bool} {text rest : List Char} (ih : ReadsOn w fuel more)

include ih

theorem valueWith_append (hw : EndsNumber w) {v : Value}
    (h : valueWith (fuel + 1) depth text = .ok (v, rest)) :
    valueWith (fuel + more + 1) depth (text ++ w) = .ok (v, rest ++ w) := by
  simp only [valueWith] at h ⊢
  split at h
  · cases h
  rename_i c start hskip
  simp only [skipSpace_append hskip]
  by_cases hlist : c = '['
  · rw [if_pos hlist] at h ⊢
    by_cases hdeep : depth ≤ 1
    · rw [if_pos hdeep] at h
      cases h
    rw [if_neg hdeep] at h ⊢
    split at h
    · cases h
    · rename_i items behind hitems
      cases h
      rw [ih.items hitems]
  rw [if_neg hlist] at h ⊢
  by_cases hobject : c = '{'
  · rw [if_pos hobject] at h ⊢
    by_cases hdeep : depth ≤ 1
    · rw [if_pos hdeep] at h
      cases h
    rw [if_neg hdeep] at h ⊢
    split at h
    · cases h
    · rename_i members behind hmembers
      cases h
      rw [ih.members hmembers]
  · rw [if_neg hobject] at h ⊢
    exact continues_scalar hw _ _ _ h

theorem itemsWith_append {items : List Value}
    (h : itemsWith (fuel + 1) depth first text = .ok (items, rest)) :
    itemsWith (fuel + more + 1) depth first (text ++ w) = .ok (items, rest ++ w) := by
  simp only [itemsWith] at h ⊢
  split at h
  · cases h
  · rename_i behind hnext
    cases h
    rw [continues_nextItem w first _ _ _ hnext]
  · rename_i start hnext
    split at h
    · cases h
    rename_i v behind hvalue
    split at h
    · cases h
    rename_i others last hitems
    cases h
    simp only [continues_nextItem w first _ _ _ hnext, ih.value hvalue, ih.items hitems]

theorem membersWith_append {members : List (String × Value)}
    (h : membersWith (fuel + 1) depth first text = .ok (members, rest)) :
    membersWith (fuel + more + 1) depth first (text ++ w) = .ok (members, rest ++ w) := by
  simp only [membersWith] at h ⊢
  split at h
  · cases h
  · rename_i behind hnext
    cases h
    rw [continues_nextKey w first _ _ _ hnext]
  · rename_i name behind hnext
    split at h
    · cases h
    rename_i start hcolon
    split at h
    · cases h
    rename_i v last hvalue
    split at h
    · cases h
    rename_i others behind hmembers
    cases h
    simp only [continues_nextKey w first _ _ _ hnext, colon_append hcolon, ih.value hvalue,
      ih.members hmembers]

end Steps

/-- By induction on the steps: the parts of a value take one step less than the value. -/
theorem readsOn (hw : EndsNumber w) (fuel more : Nat) : ReadsOn w fuel more := by
  induction fuel with
  | zero =>
    constructor <;> intros <;> contradiction
  | succ fuel ih =>
    constructor
    · intro depth text v rest h
      rw [Nat.succ_add]
      exact valueWith_append ih hw h
    · intro depth first text items rest h
      rw [Nat.succ_add]
      exact itemsWith_append ih h
    · intro depth first text members rest h
      rw [Nat.succ_add]
      exact membersWith_append ih h

theorem stepsFor_append (text w : List Char) :
    stepsFor (text ++ w) = stepsFor text + 2 * w.length := by
  simp only [stepsFor, List.length_append]
  omega

theorem continues_value (hw : EndsNumber w) : Continues w value := by
  intro text v rest h
  rw [value, stepsFor_append]
  exact (readsOn hw _ _).value h

theorem continues_items (hw : EndsNumber w) (first : Bool) : Continues w (items first) := by
  intro text values rest h
  rw [items, stepsFor_append]
  exact (readsOn hw _ _).items h

end Json

namespace Record

open Json

variable {w : List Char}

theorem continues_kindAt (w : List Char) : Continues w kindAt := by
  intro text k rest h
  simp only [kindAt] at h ⊢
  split at h
  · cases h
  rename_i c more hskip
  simp only [skipSpace_append hskip]
  by_cases hquote : c = '"'
  · rw [if_pos hquote] at h ⊢
    split at h
    · cases h
    rename_i s behind htext
    simp only [continues_text w _ _ _ htext]
    split at h
    · cases h
      rfl
    · cases h
  · rw [if_neg hquote] at h
    split at h
    · cases h
    split at h
    · cases h
    split at h <;> cases h

/-- Members that are read with some budget are read with any more of it. By induction on the
budget. -/
theorem membersFrom_append (hw : EndsNumber w) {budget text rest : List Char} {kind : Option Kind}
    {first : Bool} {found : Kind × List (String × Value)}
    (h : membersFrom budget kind first text = .ok (found, rest)) (more : List Char) :
    membersFrom (budget ++ more) kind first (text ++ w) = .ok (found, rest ++ w) := by
  induction budget generalizing kind first text found with
  | nil => cases h
  | cons b budget ih =>
    simp only [List.cons_append, membersFrom] at h ⊢
    split at h
    · cases h
    · rename_i behind hnext
      simp only [continues_nextKey w first _ _ _ hnext]
      split at h
      · cases h
      · cases h
        rfl
    · rename_i name behind hnext
      simp only [continues_nextKey w first _ _ _ hnext]
      by_cases hname : name = kindKey
      · rw [if_pos hname] at h ⊢
        by_cases hkind : kind.isSome = true
        · rw [if_pos hkind] at h
          cases h
        rw [if_neg hkind] at h ⊢
        split at h
        · cases h
        rename_i start hcolon
        split at h
        · cases h
        rename_i k last hk
        simp only [colon_append hcolon, continues_kindAt w _ _ _ hk]
        exact ih h
      rw [if_neg hname] at h ⊢
      split at h
      · cases h
      rename_i start hcolon
      split at h
      · cases h
      rename_i v last hvalue
      split at h
      · cases h
      rename_i k members behind hmembers
      cases h
      simp only [colon_append hcolon, continues_value hw _ _ _ hvalue, ih hmembers]

theorem continues_elementsFrom (hw : EndsNumber w) : Continues w elementsFrom := by
  intro text found rest h
  simp only [elementsFrom] at h ⊢
  split at h
  · cases h
  · cases h
  · rename_i start hnext
    split at h
    · cases h
    rename_i k more hk
    split at h
    · cases h
    rename_i values behind hvalues
    cases h
    simp only [continues_nextItem w true _ _ _ hnext, continues_kindAt w _ _ _ hk,
      continues_items hw false _ _ _ hvalues]

theorem continues_recordAt (hw : EndsNumber w) : Continues w recordAt := by
  intro text found rest h
  simp only [recordAt] at h ⊢
  split at h
  · cases h
  rename_i c more hskip
  simp only [skipSpace_append hskip]
  by_cases hobject : c = '{'
  · rw [if_pos hobject] at h ⊢
    split at h
    · cases h
    · rename_i k members behind hmembers
      cases h
      have hmore := membersFrom_append hw hmembers w
      rw [List.cons_append] at hmore
      rw [hmore]
  rw [if_neg hobject] at h ⊢
  by_cases hlist : c = '['
  · rw [if_pos hlist] at h ⊢
    split at h
    · cases h
    · rename_i k values behind hvalues
      cases h
      rw [continues_elementsFrom hw _ _ _ hvalues]
  · rw [if_neg hlist] at h
    split at h <;> cases h

theorem endsNumber_of_space (hw : ∀ c ∈ w, isSpace c = true) : EndsNumber w := by
  intro c hc
  have hspace := hw c (List.mem_of_mem_head? hc)
  simp only [isSpace, Bool.or_eq_true, beq_iff_eq] at hspace
  rcases hspace with ((hc | hc) | hc) | hc <;> subst hc <;> decide

/-- A record is read from a line with space behind it as it is read from the line. -/
theorem read_append_space {line : List Char} {e : Event} (h : read line = .ok e)
    (hw : ∀ c ∈ w, isSpace c = true) : read (line ++ w) = .ok e := by
  simp only [read] at h ⊢
  split at h
  · cases h
  rename_i k body behind hrecord
  rw [continues_recordAt (endsNumber_of_space hw) _ _ _ hrecord]
  split at h
  · cases h
  rename_i e' hevent
  split at h
  · rename_i hbehind
    cases h
    have hskip : skipSpace (behind ++ w) = [] := by
      rw [skipSpace] at hbehind ⊢
      rw [List.dropWhile_append, hbehind]
      exact List.dropWhile_eq_nil_iff.2 hw
    simp only [hevent, hskip]
  · cases h

end Record
end Unslide
