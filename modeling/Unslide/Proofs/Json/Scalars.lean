import Unslide.Json.Reader
import Unslide.Json.Writer

/-!
# Unslide.Proofs.Json.Scalars

Reading undoes writing for numerals and for strings. A numeral is read up to the first character
that cannot go on in a number; a string carries its own end, because every quote in it is escaped.

* `unsignedNumber_number`: a number that fits into 64 bits is read back exactly.
* `text_escape`: so is any string.
* `le_of_mem_escape`: no control character is left in what is written.
-/

namespace Unslide
namespace Json

open Decimal (digitValue)

/-! ## Numerals -/

/-- What follows cannot be a part of a number. -/
def EndsNumber (rest : List Char) : Prop :=
  ∀ c ∈ rest.head?, c.isDigit = false ∧ c ≠ '.' ∧ c ≠ 'e' ∧ c ≠ 'E'

theorem digitChar_lt_ten : ∀ d < 10, (Nat.digitChar d).isDigit = true ∧
    digitValue (Nat.digitChar d) = d ∧ (Nat.digitChar d = '0' → d = 0) := by decide

/-- Collecting the digits of a numeral, one after the other, comes to its number. -/
theorem gather_toDigits {n : Nat} (hn : n ≤ top) (rest : List Char) :
    gather 0 0 (Nat.toDigits 10 n ++ rest) = gather n (Nat.toDigits 10 n).length rest := by
  induction n using Nat.strongRecOn generalizing rest with
  | ind n ih =>
    by_cases hlt : n < 10
    · obtain ⟨hdigit, hvalue, -⟩ := digitChar_lt_ten n hlt
      rw [Nat.toDigits_of_lt_base hlt]
      simp [gather, hdigit, hvalue, hn]
    · have hle : 10 ≤ n := Nat.le_of_not_lt hlt
      obtain ⟨hdigit, hvalue, -⟩ := digitChar_lt_ten (n % 10) (Nat.mod_lt _ (by omega))
      have hjoin : n / 10 * 10 + n % 10 = n := by omega
      have hsmaller := ih (n / 10) (by omega) (by omega) (Nat.digitChar (n % 10) :: rest)
      rw [Nat.toDigits_of_base_le (by omega) hle, List.append_assoc, List.singleton_append, hsmaller,
        gather, hdigit, hvalue, hjoin, if_pos ⟨rfl, hn⟩, List.length_append]
      rfl

theorem gather_of_endsNumber {rest : List Char} (h : EndsNumber rest) (significand count : Nat) :
    gather significand count rest = (significand, count, rest) := by
  cases rest with
  | nil => rfl
  | cons c more =>
    have hc := (h c rfl).1
    simp [gather, hc]

/-- A numeral other than zero does not start with a zero. -/
theorem toDigits_head {n : Nat} (hn : n ≠ 0) :
    ∃ c cs, Nat.toDigits 10 n = c :: cs ∧ c.isDigit = true ∧ digitValue c < 10 ∧ c ≠ '0' := by
  induction n using Nat.strongRecOn with
  | ind n ih =>
    by_cases hlt : n < 10
    · obtain ⟨hdigit, hvalue, hzero⟩ := digitChar_lt_ten n hlt
      exact ⟨_, [], Nat.toDigits_of_lt_base hlt, hdigit, by omega, fun h => hn (hzero h)⟩
    · have hle : 10 ≤ n := Nat.le_of_not_lt hlt
      obtain ⟨c, cs, hcs, hhead⟩ := ih (n / 10) (by omega) (by omega)
      rw [Nat.toDigits_of_base_le (by omega) hle, hcs]
      exact ⟨c, _, rfl, hhead⟩

theorem startsWithDigit_of_endsNumber {rest : List Char} (h : EndsNumber rest) :
    startsWithDigit rest = false := by
  cases rest with
  | nil => rfl
  | cons c more => exact (h c rfl).1

theorem numberTail_of_endsNumber {rest : List Char} (h : EndsNumber rest) (n : Nat) :
    numberTail false n rest = .ok (.natural n, rest) := by
  cases rest with
  | nil => rfl
  | cons c more =>
    obtain ⟨-, hpoint, he, hE⟩ := h c rfl
    simp [numberTail, hpoint, he, hE, integer]

theorem unsignedNumber_number {n : Nat} (hn : n ≤ top) {rest : List Char} (h : EndsNumber rest) :
    unsignedNumber false (number n ++ rest) = .ok (.natural n, rest) := by
  by_cases hzero : n = 0
  · subst hzero
    rw [number, Nat.toDigits_zero, List.singleton_append]
    simp only [unsignedNumber, if_true, startsWithDigit_of_endsNumber h, Bool.false_eq_true,
      if_false]
    exact numberTail_of_endsNumber h 0
  · obtain ⟨c, cs, hcs, hdigit, hvalue, hne⟩ := toDigits_head hzero
    have hall := gather_toDigits hn rest
    rw [hcs, List.cons_append, gather] at hall
    have hfits : digitValue c ≤ top := Nat.le_trans (Nat.le_of_lt hvalue) (by decide)
    simp only [hdigit, Nat.zero_mul, Nat.zero_add, hfits, and_self, if_true] at hall
    rw [gather_of_endsNumber h] at hall
    rw [number, hcs, List.cons_append]
    simp only [unsignedNumber, if_neg hne, hdigit, if_true, hall, startsWithDigit_of_endsNumber h,
      Bool.false_eq_true, if_false]
    exact numberTail_of_endsNumber h n

/-! ## Strings -/

/-- The characters that are written as they are. -/
def Plain (c : Char) : Prop := c ≠ '"' ∧ c ≠ '\\' ∧ 32 ≤ c.toNat

theorem escapeCode_control : ∀ n < 32,
    escapeCode (Char.ofNat n) =
        ['\\', 'u', '0', '0', Nat.digitChar (n / 16), Nat.digitChar (n % 16)] ∧
      hexValues? '0' '0' (Nat.digitChar (n / 16)) (Nat.digitChar (n % 16)) = some n ∧
      byteLength ['0', '0', Nat.digitChar (n / 16), Nat.digitChar (n % 16)] = 4 := by
  decide

theorem escaped_escapeCode {c : Char} (h : c.toNat < 32) :
    ∃ tail, escapeCode c = '\\' :: tail ∧ ∀ rest, escaped (tail ++ rest) = .ok (c, rest) := by
  obtain ⟨hcode, hvalue, hlength⟩ := escapeCode_control c.toNat h
  rw [Char.ofNat_toNat] at hcode
  refine ⟨_, hcode, ?_⟩
  intro rest
  have hdigits : fourDigits ('0' :: '0' :: Nat.digitChar (c.toNat / 16) ::
      Nat.digitChar (c.toNat % 16) :: rest) = .ok (c.toNat, rest) := by
    simp only [fourDigits, List.take_succ_cons, List.take_zero, hlength, hvalue, Nat.lt_irrefl,
      if_false]
  have hbelow : c.toNat < 0xd800 := by omega
  simp only [List.cons_append, List.nil_append, escaped, if_true, codeNumber, hdigits, hbelow,
    true_or, Char.ofNat_toNat]

/-- That no control character is among the characters of a short text is found by looking. -/
theorem le_of_all {cs : List Char} (h : cs.all (fun c => decide (32 ≤ c.toNat)) = true) :
    ∀ c ∈ cs, 32 ≤ c.toNat := by
  intro c hc
  exact of_decide_eq_true (List.all_eq_true.1 h c hc)

theorem escape_control : ∀ n < 32,
    (escape (Char.ofNat n)).all (fun c => decide (32 ≤ c.toNat)) = true ∧
      (escape (Char.ofNat n) = escapeCode (Char.ofNat n) ∨
        ['b', 'f', 'n', 'r', 't'].any (fun letter =>
          decide (escape (Char.ofNat n) = ['\\', letter] ∧
            letterEscape? letter = some (Char.ofNat n))) = true) := by
  decide

theorem escaped_letter {letter c : Char} (h : letterEscape? letter = some c) (rest : List Char) :
    escaped (letter :: rest) = .ok (c, rest) := by
  have hu : letter ≠ 'u' := by
    intro hu
    subst hu
    cases h
  simp only [escaped, if_neg hu, h]

/-- A character is written as it is, or as an escape from which it is read back. -/
theorem escape_cases (c : Char) :
    (Plain c ∧ escape c = [c]) ∨
      ∃ tail, escape c = '\\' :: tail ∧ ∀ rest, escaped (tail ++ rest) = .ok (c, rest) := by
  by_cases hquote : c = '"'
  · subst hquote
    exact .inr ⟨['"'], rfl, escaped_letter rfl⟩
  by_cases hslash : c = '\\'
  · subst hslash
    exact .inr ⟨['\\'], rfl, escaped_letter rfl⟩
  by_cases hcontrol : c.toNat < 32
  · right
    have hescape := (escape_control c.toNat hcontrol).2
    rw [Char.ofNat_toNat] at hescape
    cases hescape with
    | inl hcode =>
      rw [hcode]
      exact escaped_escapeCode hcontrol
    | inr hany =>
      obtain ⟨letter, -, hletter⟩ := List.any_eq_true.1 hany
      obtain ⟨hletter, hback⟩ := of_decide_eq_true hletter
      exact ⟨[letter], hletter, escaped_letter hback⟩
  · have hprints : 32 ≤ c.toNat := Nat.le_of_not_lt hcontrol
    exact .inl ⟨⟨hquote, hslash, hprints⟩, escape_of_plain hquote hslash hprints⟩

/-- No control character is left in the text of a string. -/
theorem le_of_mem_escape {c d : Char} (hd : d ∈ escape c) : 32 ≤ d.toNat := by
  by_cases hcontrol : c.toNat < 32
  · have hescape := (escape_control c.toNat hcontrol).1
    rw [Char.ofNat_toNat] at hescape
    exact le_of_all hescape d hd
  by_cases hquote : c = '"'
  · subst hquote
    exact le_of_all rfl d hd
  by_cases hslash : c = '\\'
  · subst hslash
    exact le_of_all rfl d hd
  · rw [escape_of_plain hquote hslash (Nat.le_of_not_lt hcontrol), List.mem_singleton] at hd
    rw [hd]
    exact Nat.le_of_not_lt hcontrol

/-- The characters of a string are read one by one, each in one step. By induction on them. -/
theorem textFrom_escape (cs : List Char) {budget : List Char} (done rest : List Char)
    (h : cs.length < budget.length) :
    textFrom budget done (cs.flatMap escape ++ '"' :: rest) =
      .ok (String.ofList (done.reverse ++ cs), rest) := by
  induction cs generalizing budget done with
  | nil =>
    cases budget with
    | nil => cases h
    | cons _ budget => simp [textFrom]
  | cons c cs ih =>
    cases budget with
    | nil => cases h
    | cons _ budget =>
      have hrest := ih (c :: done) (Nat.lt_of_succ_lt_succ h)
      rw [List.flatMap_cons, List.append_assoc]
      cases escape_cases c with
      | inl hplain =>
        obtain ⟨⟨hquote, hslash, hprints⟩, hescape⟩ := hplain
        rw [hescape, List.singleton_append, textFrom, if_neg hquote, if_neg hslash,
          if_neg (Nat.not_lt.2 hprints), hrest, List.reverse_cons, List.append_assoc,
          List.singleton_append]
      | inr hescaped =>
        obtain ⟨tail, hescape, hback⟩ := hescaped
        rw [hescape, List.cons_append, textFrom, if_neg (by decide), if_pos rfl, hback]
        simp only [hrest, List.reverse_cons, List.append_assoc, List.singleton_append]

theorem length_le_flatMap_escape (cs : List Char) : cs.length ≤ (cs.flatMap escape).length := by
  induction cs with
  | nil => exact Nat.le_refl _
  | cons c cs ih =>
    have hone : 0 < (escape c).length := by
      cases escape_cases c with
      | inl hplain => simp [hplain.2]
      | inr hescaped =>
        obtain ⟨tail, hescape, -⟩ := hescaped
        simp [hescape]
    rw [List.flatMap_cons, List.length_append, List.length_cons]
    omega

/-- A string is read back from behind its opening quote. -/
theorem text_escape (s : String) (rest : List Char) :
    text (s.toList.flatMap escape ++ '"' :: rest) = .ok (s, rest) := by
  have hlength := length_le_flatMap_escape s.toList
  have hfits : s.toList.length < (s.toList.flatMap escape ++ '"' :: rest).length := by
    rw [List.length_append, List.length_cons]
    omega
  rw [text, textFrom_escape s.toList [] rest hfits, List.reverse_nil, List.nil_append,
    String.ofList_toList]

end Json
end Unslide
