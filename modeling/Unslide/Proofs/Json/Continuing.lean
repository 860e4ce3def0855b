import Unslide.Proofs.Json.Scalars

/-!
# Unslide.Proofs.Json.Continuing

What stands behind a number, a string or a word does not change how it is read, unless it could go
on in a number. A scan that looks no further than that `Continues`: what it reads from the front of
a text it also reads where more stands behind the text.

* `continues_unsignedNumber`: numbers, in front of what ends a number.
* `continues_text`: strings, which carry their own end.
* `continues_scalar`: every value that is neither a list nor an object.
-/

namespace Unslide
namespace Json

open Decimal (digitValue ofMagnitude)

/-- What is read from the front of a text is also read where `w` stands behind the text. -/
def Continues {α : Type} (w : List Char) (scan : List Char → Scan α) : Prop :=
  ∀ text a rest, scan text = .ok (a, rest) → scan (text ++ w) = .ok (a, rest ++ w)

variable {w : List Char}

theorem skipSpace_append {text rest : List Char} {c : Char} (h : skipSpace text = c :: rest)
    (w : List Char) : skipSpace (text ++ w) = c :: (rest ++ w) := by
  rw [skipSpace] at h ⊢
  rw [List.dropWhile_append, h]
  rfl

/-! ## Numbers -/

theorem startsWithDigit_append (hw : EndsNumber w) (text : List Char) :
    startsWithDigit (text ++ w) = startsWithDigit text := by
  cases text with
  | nil => exact startsWithDigit_of_endsNumber hw
  | cons c rest => rfl

theorem dropWhile_isDigit_append (hw : EndsNumber w) (text : List Char) :
    (text ++ w).dropWhile Char.isDigit = text.dropWhile Char.isDigit ++ w := by
  induction text with
  | nil =>
    cases w with
    | nil => rfl
    | cons c rest => simp [(hw c rfl).1]
  | cons c text ih =>
    simp only [List.cons_append, List.dropWhile_cons]
    split
    · exact ih
    · rfl

theorem takeWhile_isDigit_append (hw : EndsNumber w) (text : List Char) :
    (text ++ w).takeWhile Char.isDigit = text.takeWhile Char.isDigit := by
  induction text with
  | nil =>
    cases w with
    | nil => rfl
    | cons c rest => simp [(hw c rfl).1]
  | cons c text ih => simp only [List.cons_append, List.takeWhile_cons, ih]

theorem gather_append (hw : EndsNumber w) (significand count : Nat) (text : List Char) :
    gather significand count (text ++ w) = ((gather significand count text).1,
      (gather significand count text).2.1, (gather significand count text).2.2 ++ w) := by
  induction text generalizing significand count with
  | nil => exact gather_of_endsNumber hw significand count
  | cons c text ih =>
    simp only [List.cons_append, gather]
    split
    · exact ih _ _
    · rfl

theorem exponentDigits_append (hw : EndsNumber w) (value : Nat) (text : List Char) :
    exponentDigits value (text ++ w) =
      ((exponentDigits value text).1, (exponentDigits value text).2 ++ w) := by
  induction text generalizing value with
  | nil =>
    cases w with
    | nil => rfl
    | cons c rest => simp [exponentDigits, (hw c rfl).1]
  | cons c text ih =>
    simp only [List.cons_append, exponentDigits]
    split
    · split
      · rfl
      · exact ih _
    · rfl

theorem continues_realFrom (w : List Char) (negative : Bool) (significand : Nat) (exponent : Int) :
    Continues w (realFrom negative significand exponent) := by
  intro text v rest h
  simp only [realFrom] at h ⊢
  split at h
  · cases h
  · cases h
    rfl

/-- Whether a minus stands in front of the digits of an exponent, and the text from them on. -/
def exponentSign (text : List Char) : Bool × List Char :=
  match text with
  | '-' :: rest => (true, rest)
  | '+' :: rest => (false, rest)
  | _ => (false, text)

/-- A number from the digits of its exponent on. -/
def exponentFrom (negative : Bool) (significand : Nat) (exponent : Int) (down : Bool)
    (digits : List Char) : Scan Value :=
  match digits with
  | [] => .error (.here [] (.unfinished .value))
  | c :: rest =>
    if c.isDigit then
      match exponentDigits (digitValue c) rest with
      | (some power, behind) =>
        realFrom negative significand (if down then exponent - power else exponent + power) behind
      | (none, behind) =>
        if significand ≠ 0 ∧ down = false then .error (.here behind .numberTooLarge)
        else .ok (.real (ofMagnitude negative 0), behind.dropWhile Char.isDigit)
    else .error (.ahead (c :: rest) .badNumber)

theorem exponentPart_eq (negative : Bool) (significand : Nat) (exponent : Int)
    (text : List Char) : exponentPart negative significand exponent text =
      exponentFrom negative significand exponent (exponentSign text).1 (exponentSign text).2 :=
  rfl

theorem exponentSign_append (c : Char) (text w : List Char) :
    exponentSign (c :: text ++ w) =
      ((exponentSign (c :: text)).1, (exponentSign (c :: text)).2 ++ w) := by
  by_cases hminus : c = '-'
  · subst hminus
    rfl
  by_cases hplus : c = '+'
  · subst hplus
    rfl
  have hplain : ∀ rest, exponentSign (c :: rest) = (false, c :: rest) := by
    intro rest
    simp only [exponentSign]
    split
    · rename_i heq
      cases heq
      exact absurd rfl hminus
    · rename_i heq
      cases heq
      exact absurd rfl hplus
    · rfl
  rw [List.cons_append, hplain, hplain]
  rfl

theorem continues_exponentFrom (hw : EndsNumber w) (negative : Bool) (significand : Nat)
    (exponent : Int) (down : Bool) :
    Continues w (exponentFrom negative significand exponent down) := by
  intro text v rest h
  cases text with
  | nil => cases h
  | cons c more =>
    simp only [List.cons_append, exponentFrom] at h ⊢
    by_cases hdigit : c.isDigit = true
    · rw [if_pos hdigit] at h ⊢
      rw [exponentDigits_append hw]
      generalize exponentDigits (digitValue c) more = found at h ⊢
      obtain ⟨power, behind⟩ := found
      cases power with
      | some power => exact continues_realFrom w negative significand _ _ _ _ h
      | none =>
        simp only at h ⊢
        by_cases hlarge : significand ≠ 0 ∧ down = false
        · rw [if_pos hlarge] at h
          cases h
        · rw [if_neg hlarge] at h ⊢
          rw [dropWhile_isDigit_append hw]
          cases h
          rfl
    · rw [if_neg hdigit] at h
      cases h

theorem continues_exponentPart (hw : EndsNumber w) (negative : Bool) (significand : Nat)
    (exponent : Int) : Continues w (exponentPart negative significand exponent) := by
  intro text v rest h
  rw [exponentPart_eq] at h ⊢
  cases text with
  | nil => cases h
  | cons c more =>
    rw [exponentSign_append]
    exact continues_exponentFrom hw negative significand exponent _ _ _ _ h

theorem continues_realTail (hw : EndsNumber w) (negative : Bool) (significand : Nat)
    (exponent : Int) : Continues w (realTail negative significand exponent) := by
  intro text v rest h
  have hreal := continues_realFrom w negative significand exponent
  cases text with
  | nil =>
    have hread := hreal [] v rest h
    cases w with
    | nil => exact hread
    | cons c more =>
      obtain ⟨-, -, he, hE⟩ := hw c rfl
      simpa only [List.nil_append, realTail, he, hE, or_self, if_false] using hread
  | cons c more =>
    simp only [List.cons_append, realTail] at h ⊢
    by_cases hletter : c = 'e' ∨ c = 'E'
    · rw [if_pos hletter] at h ⊢
      exact continues_exponentPart hw negative significand exponent _ _ _ h
    · rw [if_neg hletter] at h ⊢
      exact hreal _ _ _ h

theorem continues_fractionPart (hw : EndsNumber w) (negative : Bool) (significand : Nat)
    (exponent : Int) : Continues w (fractionPart negative significand exponent) := by
  intro text v rest h
  simp only [fractionPart] at h ⊢
  rw [gather_append hw]
  generalize gather significand 0 text = found at h ⊢
  obtain ⟨longer, count, behind⟩ := found
  have htail := continues_realTail hw negative longer (exponent - count)
  simp only [startsWithDigit_append hw] at h ⊢
  by_cases hdigit : startsWithDigit behind = true
  · rw [if_pos hdigit] at h ⊢
    rw [dropWhile_isDigit_append hw]
    exact htail _ _ _ h
  rw [if_neg hdigit] at h ⊢
  by_cases hnone : count = 0
  · rw [if_pos hnone] at h
    cases h
  · rw [if_neg hnone] at h ⊢
    exact htail _ _ _ h

theorem continues_numberTail (hw : EndsNumber w) (negative : Bool) (significand : Nat) :
    Continues w (numberTail negative significand) := by
  intro text v rest h
  cases text with
  | nil =>
    cases h
    cases w with
    | nil => rfl
    | cons c more =>
      obtain ⟨-, hpoint, he, hE⟩ := hw c rfl
      simp only [List.nil_append, numberTail, hpoint, he, hE, or_self, if_false]
  | cons c more =>
    simp only [List.cons_append, numberTail] at h ⊢
    by_cases hpoint : c = '.'
    · rw [if_pos hpoint] at h ⊢
      exact continues_fractionPart hw negative significand 0 _ _ _ h
    rw [if_neg hpoint] at h ⊢
    by_cases hletter : c = 'e' ∨ c = 'E'
    · rw [if_pos hletter] at h ⊢
      exact continues_exponentPart hw negative significand 0 _ _ _ h
    · rw [if_neg hletter] at h ⊢
      cases h
      rfl

/-- A number from the end of its digits on, of which `dropped` were too many. -/
def longFrom (negative : Bool) (significand dropped : Nat) (text : List Char) : Scan Value :=
  match text with
  | '.' :: rest => fractionPart negative significand dropped rest
  | behind => realTail negative significand dropped behind

theorem longTail_eq (negative : Bool) (significand : Nat) (text : List Char) :
    longTail negative significand text = longFrom negative significand
      (text.takeWhile Char.isDigit).length (text.dropWhile Char.isDigit) := rfl

theorem longFrom_of_ne {c : Char} (hc : c ≠ '.') (negative : Bool) (significand dropped : Nat)
    (rest : List Char) : longFrom negative significand dropped (c :: rest) =
      realTail negative significand dropped (c :: rest) := by
  simp only [longFrom]
  split
  · rename_i heq
    cases heq
    exact absurd rfl hc
  · rfl

theorem continues_longFrom (hw : EndsNumber w) (negative : Bool) (significand dropped : Nat) :
    Continues w (longFrom negative significand dropped) := by
  intro text v rest h
  have htail := continues_realTail hw negative significand dropped
  cases text with
  | nil =>
    have hread := htail [] v rest h
    cases w with
    | nil => exact hread
    | cons c more => exact (longFrom_of_ne (hw c rfl).2.1 ..).trans hread
  | cons c more =>
    by_cases hpoint : c = '.'
    · subst hpoint
      exact continues_fractionPart hw negative significand dropped _ _ _ h
    · rw [longFrom_of_ne hpoint] at h
      exact (longFrom_of_ne hpoint ..).trans (htail _ _ _ h)

theorem continues_longTail (hw : EndsNumber w) (negative : Bool) (significand : Nat) :
    Continues w (longTail negative significand) := by
  intro text v rest h
  rw [longTail_eq] at h ⊢
  rw [takeWhile_isDigit_append hw, dropWhile_isDigit_append hw]
  exact continues_longFrom hw negative significand _ _ _ _ h

theorem continues_unsignedNumber (hw : EndsNumber w) (negative : Bool) :
    Continues w (unsignedNumber negative) := by
  intro text v rest h
  cases text with
  | nil => cases h
  | cons c more =>
    simp only [List.cons_append, unsignedNumber, startsWithDigit_append hw] at h ⊢
    by_cases hzero : c = '0'
    · rw [if_pos hzero] at h ⊢
      by_cases hdigit : startsWithDigit more = true
      · rw [if_pos hdigit] at h
        cases h
      · rw [if_neg hdigit] at h ⊢
        exact continues_numberTail hw negative 0 _ _ _ h
    rw [if_neg hzero] at h ⊢
    by_cases hdigit : c.isDigit = true
    · rw [if_pos hdigit] at h ⊢
      rw [gather_append hw]
      generalize gather (digitValue c) 1 more = found at h ⊢
      obtain ⟨significand, count, behind⟩ := found
      simp only [startsWithDigit_append hw] at h ⊢
      by_cases hlong : startsWithDigit behind = true
      · rw [if_pos hlong] at h ⊢
        exact continues_longTail hw negative significand _ _ _ h
      · rw [if_neg hlong] at h ⊢
        exact continues_numberTail hw negative significand _ _ _ h
    · rw [if_neg hdigit] at h
      cases h

/-! ## Strings -/

theorem continues_fourDigits (w : List Char) : Continues w fourDigits := by
  intro text n rest h
  simp only [fourDigits] at h ⊢
  by_cases hshort : byteLength (text.take 4) < 4
  · rw [if_pos hshort] at h
    cases h
  rw [if_neg hshort] at h
  split at h
  · rename_i a b c d more
    have hlong : ¬ byteLength ((a :: b :: c :: d :: more ++ w).take 4) < 4 := hshort
    rw [if_neg hlong]
    split at h
    · rename_i hvalue
      cases h
      simp only [List.cons_append, hvalue]
    · cases h
  · cases h

theorem continues_lowSurrogate (w : List Char) (high : Nat) : Continues w (lowSurrogate high) := by
  intro text c rest h
  unfold lowSurrogate at h
  split at h
  · cases h
  · split at h
    · cases h
    · split at h
      · cases h
      · rename_i low behind hdigits
        simp only [List.cons_append, lowSurrogate, continues_fourDigits w _ _ _ hdigits]
        by_cases hlow : low < 0xdc00 ∨ 0xdfff < low
        · rw [if_pos hlow] at h
          cases h
        · rw [if_neg hlow] at h ⊢
          obtain ⟨hchar, hrest⟩ := Prod.mk.inj (Except.ok.inj h)
          rw [hchar, hrest]
    · cases h
  · cases h

theorem continues_codeNumber (w : List Char) : Continues w codeNumber := by
  intro text c rest h
  simp only [codeNumber] at h ⊢
  split at h
  · cases h
  · rename_i n behind hdigits
    simp only [continues_fourDigits w _ _ _ hdigits]
    by_cases hplain : n < 0xd800 ∨ 0xdfff < n
    · rw [if_pos hplain] at h ⊢
      cases h
      rfl
    rw [if_neg hplain] at h ⊢
    by_cases hhigh : n < 0xdc00
    · rw [if_pos hhigh] at h ⊢
      exact continues_lowSurrogate w n _ _ _ h
    · rw [if_neg hhigh] at h
      cases h

theorem continues_escaped (w : List Char) : Continues w escaped := by
  intro text d rest h
  cases text with
  | nil => cases h
  | cons c more =>
    simp only [List.cons_append, escaped] at h ⊢
    by_cases hcode : c = 'u'
    · rw [if_pos hcode] at h ⊢
      exact continues_codeNumber w _ _ _ h
    rw [if_neg hcode] at h ⊢
    split at h
    · cases h
      rfl
    · cases h

/-- A string that is read with some budget is read with any more of it. By induction on the
budget. -/
theorem textFrom_append {budget done text rest : List Char} {s : String}
    (h : textFrom budget done text = .ok (s, rest)) (more w : List Char) :
    textFrom (budget ++ more) done (text ++ w) = .ok (s, rest ++ w) := by
  induction budget generalizing done text with
  | nil => cases text <;> cases h
  | cons b budget ih =>
    cases text with
    | nil => cases h
    | cons c cs =>
      simp only [List.cons_append, textFrom] at h ⊢
      by_cases hquote : c = '"'
      · rw [if_pos hquote] at h ⊢
        cases h
        rfl
      rw [if_neg hquote] at h ⊢
      by_cases hslash : c = '\\'
      · rw [if_pos hslash] at h ⊢
        split at h
        · cases h
        · rename_i d behind hescaped
          simp only [continues_escaped w _ _ _ hescaped]
          exact ih h
      rw [if_neg hslash] at h ⊢
      by_cases hcontrol : c.toNat < 32
      · rw [if_pos hcontrol] at h
        cases h
      · rw [if_neg hcontrol] at h ⊢
        exact ih h

theorem continues_text (w : List Char) : Continues w Json.text :=
  fun _ _ _ h => textFrom_append h w w

/-! ## Words and scalars -/

theorem restOfWord_append {expected text rest : List Char}
    (h : restOfWord expected text = .ok rest) (w : List Char) :
    restOfWord expected (text ++ w) = .ok (rest ++ w) := by
  induction expected generalizing text with
  | nil =>
    cases h
    rfl
  | cons e expected ih =>
    cases text with
    | nil => cases h
    | cons c more =>
      simp only [List.cons_append, restOfWord] at h ⊢
      by_cases hletter : c = e
      · rw [if_pos hletter] at h ⊢
        exact ih h
      · rw [if_neg hletter] at h
        cases h

theorem continues_word (w expected : List Char) (v : Value) : Continues w (word expected v) := by
  intro text u rest h
  simp only [word] at h ⊢
  split at h
  · cases h
  · rename_i behind hword
    cases h
    rw [restOfWord_append hword]

theorem continues_scalar (hw : EndsNumber w) : Continues w scalar := by
  intro text v rest h
  cases text with
  | nil => cases h
  | cons c more =>
    simp only [List.cons_append, scalar] at h ⊢
    by_cases hn : c = 'n'
    · rw [if_pos hn] at h ⊢
      exact continues_word w _ _ _ _ _ h
    rw [if_neg hn] at h ⊢
    by_cases ht : c = 't'
    · rw [if_pos ht] at h ⊢
      exact continues_word w _ _ _ _ _ h
    rw [if_neg ht] at h ⊢
    by_cases hf : c = 'f'
    · rw [if_pos hf] at h ⊢
      exact continues_word w _ _ _ _ _ h
    rw [if_neg hf] at h ⊢
    by_cases hminus : c = '-'
    · rw [if_pos hminus] at h ⊢
      exact continues_unsignedNumber hw true _ _ _ h
    rw [if_neg hminus] at h ⊢
    by_cases hdigit : c.isDigit = true
    · rw [if_pos hdigit] at h ⊢
      exact continues_unsignedNumber hw false _ _ _ h
    rw [if_neg hdigit] at h ⊢
    by_cases hquote : c = '"'
    · rw [if_pos hquote] at h ⊢
      split at h
      · cases h
      · rename_i s behind htext
        cases h
        rw [continues_text w _ _ _ htext]
    · rw [if_neg hquote] at h
      cases h

end Json
end Unslide
