import Unslide.Proofs.Json.Scalars

/-!
# Unslide.Proofs.Json.Values

Reading undoes writing for values. `Spells cs v height` says of a text that it is read as the value
`v` wherever it stands, in lists and objects that leave `height` for it, and that it has no control
character. The numerals, flags and strings that are written spell what they were written from; and
lists and objects are put together from the laws of their parts.

* `spells_number`, `spells_flag`, `spells_quoted`: values without parts.
* `spells_array`, `spells_object`: lists and objects.
-/

namespace Unslide
namespace Json

/-- A character that can stand behind a value. -/
def Ends (c : Char) : Prop := c = ',' ∨ c = ']' ∨ c = '}'

/-- The text is read as the value, whatever stands behind it. -/
structure Spells (cs : List Char) (v : Value) (height : Nat) : Prop where
  /-- It starts with a character that is neither space nor the end of a list. -/
  visible : ∃ c rest, cs = c :: rest ∧ isSpace c = false ∧ c ≠ ']'
  /-- Two steps for each character suffice. -/
  reads : ∀ fuel depth c rest, 2 * cs.length ≤ fuel → height < depth → Ends c →
    valueWith fuel depth (cs ++ c :: rest) = .ok (v, c :: rest)
  /-- It has no control character. -/
  prints : ∀ c ∈ cs, 32 ≤ c.toNat

theorem Ends.endsNumber {c : Char} (h : Ends c) (rest : List Char) : EndsNumber (c :: rest) := by
  intro d hd
  cases hd
  rcases h with h | h | h <;> subst h <;> decide

/-! ## Values without parts -/

/-- A text that starts neither a list nor an object is read as a scalar is. -/
theorem spells_of_scalar {c : Char} {cs : List Char} {v : Value} (hspace : isSpace c = false)
    (hlist : c ≠ '[') (hend : c ≠ ']') (hobject : c ≠ '{') (hprints : ∀ d ∈ c :: cs, 32 ≤ d.toNat)
    (hscalar : ∀ d rest, Ends d → scalar (c :: cs ++ d :: rest) = .ok (v, d :: rest)) :
    Spells (c :: cs) v 0 where
  visible := ⟨c, cs, rfl, hspace, hend⟩
  reads fuel depth d rest hfuel _ hd := by
    cases fuel with
    | zero => simp at hfuel
    | succ fuel =>
      have hread := hscalar d rest hd
      rw [List.cons_append] at hread ⊢
      rw [valueWith, skipSpace_of_not_space hspace]
      simp only [if_neg hlist, if_neg hobject, hread]
  prints := hprints

theorem ne_of_isDigit {c d : Char} (h : c.isDigit = true) (hd : d.isDigit = false) : c ≠ d := by
  intro heq
  rw [heq, hd] at h
  cases h

theorem le_of_isDigit {c : Char} (h : c.isDigit = true) : 32 ≤ c.toNat := by
  simp only [Char.isDigit, Bool.and_eq_true, decide_eq_true_eq] at h
  have hle : '0'.toNat ≤ c.toNat := h.1
  exact Nat.le_trans (by decide) hle

theorem isSpace_of_isDigit {c : Char} (h : c.isDigit = true) : isSpace c = false := by
  simp only [isSpace, Bool.or_eq_false_iff, beq_eq_false_iff_ne]
  exact ⟨⟨⟨ne_of_isDigit h rfl, ne_of_isDigit h rfl⟩, ne_of_isDigit h rfl⟩, ne_of_isDigit h rfl⟩

theorem scalar_of_isDigit {c : Char} (h : c.isDigit = true) (rest : List Char) :
    scalar (c :: rest) = unsignedNumber false (c :: rest) := by
  simp only [scalar, if_neg (ne_of_isDigit h (d := 'n') rfl), if_neg (ne_of_isDigit h (d := 't') rfl),
    if_neg (ne_of_isDigit h (d := 'f') rfl), if_neg (ne_of_isDigit h (d := '-') rfl), h, if_true]

theorem spells_number {n : Nat} (hn : n ≤ top) : Spells (number n) (.natural n) 0 := by
  have hdigits : ∀ d ∈ number n, d.isDigit = true := fun d hd =>
    Nat.isDigit_of_mem_toDigits (by decide) (by decide) hd
  have hread : ∀ d rest, Ends d → unsignedNumber false (number n ++ d :: rest) =
      .ok (.natural n, d :: rest) := fun d rest hd => unsignedNumber_number hn (hd.endsNumber rest)
  cases hcs : number n with
  | nil => exact absurd hcs Nat.toDigits_ne_nil
  | cons c cs =>
    rw [hcs] at hdigits hread
    have hc := hdigits c List.mem_cons_self
    refine spells_of_scalar (isSpace_of_isDigit hc) (ne_of_isDigit hc rfl) (ne_of_isDigit hc rfl)
      (ne_of_isDigit hc rfl) (fun d hd => le_of_isDigit (hdigits d hd)) ?_
    intro d rest hd
    rw [List.cons_append, scalar_of_isDigit hc]
    exact hread d rest hd

theorem spells_flag (b : Bool) : Spells (flag b) (.flag b) 0 := by
  cases b with
  | false =>
    refine spells_of_scalar (by decide) (by decide) (by decide) (by decide) (le_of_all rfl) ?_
    intro d rest _
    rfl
  | true =>
    refine spells_of_scalar (by decide) (by decide) (by decide) (by decide) (le_of_all rfl) ?_
    intro d rest _
    rfl

theorem prints_quoted (s : String) : ∀ c ∈ quoted s, 32 ≤ c.toNat := by
  intro c hc
  simp only [quoted, List.mem_cons, List.mem_append, List.mem_flatMap, List.not_mem_nil,
    or_false] at hc
  rcases hc with hc | ⟨d, -, hc⟩ | hc
  · subst hc
    decide
  · exact le_of_mem_escape hc
  · subst hc
    decide

theorem spells_quoted (s : String) : Spells (quoted s) (.text s) 0 := by
  refine spells_of_scalar (by decide) (by decide) (by decide) (by decide) (prints_quoted s) ?_
  intro d rest _
  have hread := text_escape s (d :: rest)
  have htext : scalar ('"' :: (s.toList.flatMap escape ++ '"' :: d :: rest)) =
      .ok (.text s, d :: rest) := by
    rw [scalar, if_neg (by decide), if_neg (by decide), if_neg (by decide), if_neg (by decide),
      if_neg (by decide), if_pos rfl, hread]
  rw [List.cons_append, List.append_assoc]
  exact htext

/-! ## Lists -/

theorem Spells.mono {cs : List Char} {v : Value} {height higher : Nat} (h : Spells cs v height)
    (hle : height ≤ higher) : Spells cs v higher where
  visible := h.visible
  reads fuel depth c rest hfuel hdepth := h.reads fuel depth c rest hfuel (Nat.lt_of_le_of_lt hle hdepth)
  prints := h.prints

/-- Texts behind others, each with its comma. -/
def continued (texts : List (List Char)) : List Char := texts.flatMap fun cs => ',' :: cs

theorem continued_cons (cs : List Char) (texts : List (List Char)) :
    continued (cs :: texts) = ',' :: (cs ++ continued texts) := rfl

theorem separated_cons (cs : List Char) (texts : List (List Char)) :
    separated (cs :: texts) = cs ++ continued texts := by
  induction texts generalizing cs with
  | nil => simp [separated, continued]
  | cons next texts ih =>
    have hmore : separated (cs :: next :: texts) = cs ++ ',' :: separated (next :: texts) := rfl
    rw [hmore, ih, continued_cons]

/-- What follows a value is a comma or the end of the list or object. -/
theorem continued_ends (texts : List (List Char)) {c : Char} (hc : Ends c) (rest : List Char) :
    ∃ d more, continued texts ++ c :: rest = d :: more ∧ Ends d := by
  cases texts with
  | nil => exact ⟨c, rest, rfl, hc⟩
  | cons cs texts => exact ⟨',', _, rfl, .inl rfl⟩

theorem Spells.reads_continued {cs : List Char} {v : Value} {height fuel depth : Nat}
    (h : Spells cs v height) (hfuel : 2 * cs.length ≤ fuel) (hdepth : height < depth)
    (texts : List (List Char)) {c : Char} (hc : Ends c) (rest : List Char) :
    valueWith fuel depth (cs ++ (continued texts ++ c :: rest)) =
      .ok (v, continued texts ++ c :: rest) := by
  obtain ⟨d, more, hmore, hd⟩ := continued_ends texts hc rest
  rw [hmore]
  exact h.reads fuel depth d more hfuel hdepth hd

theorem Spells.length_pos {cs : List Char} {v : Value} {height : Nat} (h : Spells cs v height) :
    0 < cs.length := by
  obtain ⟨c, more, hcs, -⟩ := h.visible
  rw [hcs]
  exact Nat.succ_pos _

theorem nextItem_first {cs : List Char} {v : Value} {height : Nat} (h : Spells cs v height)
    (rest : List Char) : nextItem true (cs ++ rest) = .ok (true, cs ++ rest) := by
  obtain ⟨c, more, hcs, hspace, hend⟩ := h.visible
  subst hcs
  rw [List.cons_append, nextItem, skipSpace_of_not_space hspace]
  simp only [if_neg hend, if_true]

theorem nextItem_next {cs : List Char} {v : Value} {height : Nat} (h : Spells cs v height)
    (rest : List Char) : nextItem false (',' :: (cs ++ rest)) = .ok (true, cs ++ rest) := by
  obtain ⟨c, more, hcs, hspace, hend⟩ := h.visible
  subst hcs
  rw [List.cons_append, nextItem, skipSpace_of_not_space (by decide)]
  simp only [skipSpace_of_not_space hspace, if_neg hend]
  rfl

theorem prints_continued {texts : List (List Char)} (h : ∀ cs ∈ texts, ∀ c ∈ cs, 32 ≤ c.toNat) :
    ∀ c ∈ continued texts, 32 ≤ c.toNat := by
  intro c hc
  obtain ⟨cs, hcs, hc⟩ := List.mem_flatMap.1 hc
  cases hc with
  | head => decide
  | tail _ hc => exact h cs hcs c hc

theorem prints_separated {texts : List (List Char)} (h : ∀ cs ∈ texts, ∀ c ∈ cs, 32 ≤ c.toNat) :
    ∀ c ∈ separated texts, 32 ≤ c.toNat := by
  cases texts with
  | nil =>
    intro c hc
    cases hc
  | cons cs texts =>
    intro c hc
    rw [separated_cons, List.mem_append] at hc
    cases hc with
    | inl hc => exact h cs List.mem_cons_self c hc
    | inr hc => exact prints_continued (fun ds hds => h ds (List.mem_cons_of_mem _ hds)) c hc

/-- A text between brackets. -/
theorem prints_enclosed {opening closing : Char} (ho : 32 ≤ opening.toNat) (hc : 32 ≤ closing.toNat)
    {cs : List Char} (h : ∀ c ∈ cs, 32 ≤ c.toNat) :
    ∀ c ∈ opening :: (cs ++ [closing]), 32 ≤ c.toNat := by
  intro c hmem
  simp only [List.mem_cons, List.mem_append, List.not_mem_nil, or_false] at hmem
  rcases hmem with hmem | hmem | hmem
  · rw [hmem]
    exact ho
  · exact h c hmem
  · rw [hmem]
    exact hc

section Parts

variable {α : Type} {written : α → List Char} {meant : α → Value} {height depth : Nat}

/-- The elements behind the first. By induction on them: each takes one step for itself, and its
own characters for its value. -/
theorem itemsWith_continued {xs : List α} (h : ∀ x ∈ xs, Spells (written x) (meant x) height)
    (hdepth : height < depth) (rest : List Char) {fuel : Nat}
    (hfuel : 2 * (continued (xs.map written)).length + 1 ≤ fuel) :
    itemsWith fuel depth false (continued (xs.map written) ++ ']' :: rest) =
      .ok (xs.map meant, rest) := by
  induction xs generalizing fuel with
  | nil =>
    cases fuel with
    | zero => cases hfuel
    | succ fuel => rfl
  | cons x xs ih =>
    cases fuel with
    | zero => cases hfuel
    | succ fuel =>
      rw [List.map_cons, continued_cons, List.length_cons, List.length_append] at hfuel
      have hx := h x List.mem_cons_self
      have hvalue := hx.reads_continued (show 2 * (written x).length ≤ fuel by omega) hdepth
        (xs.map written) (.inr (.inl rfl)) rest
      have hmore := ih (fun y hy => h y (List.mem_cons_of_mem _ hy))
        (show 2 * (continued (xs.map written)).length + 1 ≤ fuel by omega)
      rw [List.map_cons, continued_cons, List.cons_append, List.append_assoc, itemsWith,
        nextItem_next hx]
      simp only [hvalue, hmore, List.map_cons]

theorem itemsWith_separated {xs : List α} (h : ∀ x ∈ xs, Spells (written x) (meant x) height)
    (hdepth : height < depth) (rest : List Char) {fuel : Nat}
    (hfuel : 2 * (separated (xs.map written)).length + 1 ≤ fuel) :
    itemsWith fuel depth true (separated (xs.map written) ++ ']' :: rest) =
      .ok (xs.map meant, rest) := by
  cases fuel with
  | zero => cases hfuel
  | succ fuel =>
    cases xs with
    | nil => rfl
    | cons x xs =>
      rw [List.map_cons, separated_cons, List.length_append] at hfuel
      have hx := h x List.mem_cons_self
      have hpos := hx.length_pos
      have hvalue := hx.reads_continued (show 2 * (written x).length ≤ fuel by omega) hdepth
        (xs.map written) (.inr (.inl rfl)) rest
      have hmore := itemsWith_continued (fun y hy => h y (List.mem_cons_of_mem _ hy)) hdepth rest
        (show 2 * (continued (xs.map written)).length + 1 ≤ fuel by omega)
      rw [List.map_cons, separated_cons, List.append_assoc, itemsWith, nextItem_first hx]
      simp only [hvalue, hmore, List.map_cons]

theorem spells_array {xs : List α} (h : ∀ x ∈ xs, Spells (written x) (meant x) height) :
    Spells (array (xs.map written)) (.array (xs.map meant)) (height + 1) where
  visible := ⟨'[', _, rfl, by decide, by decide⟩
  reads fuel depth c rest hfuel hdepth _ := by
    simp only [array, List.length_cons, List.length_append, List.length_nil] at hfuel
    cases fuel with
    | zero => omega
    | succ fuel =>
      have hitems := itemsWith_separated h (show height < depth - 1 by omega) (c :: rest)
        (show 2 * (separated (xs.map written)).length + 1 ≤ fuel by omega)
      have hdeep : ¬ depth ≤ 1 := by omega
      rw [array, List.cons_append, List.append_assoc, valueWith, skipSpace_of_not_space (by decide)]
      simp only [if_true, if_neg hdeep, List.singleton_append, hitems]
  prints := by
    refine prints_enclosed (by decide) (by decide) (prints_separated ?_)
    intro cs hcs
    obtain ⟨x, hx, heq⟩ := List.mem_map.1 hcs
    rw [← heq]
    exact (h x hx).prints

/-! ## Objects -/

theorem key_member (name : String) (text rest : List Char) :
    key (member name text ++ rest) = .ok (name, ':' :: (text ++ rest)) := by
  have hread := text_escape name (':' :: (text ++ rest))
  simp only [member, quoted, List.cons_append, List.append_assoc, List.nil_append, key, if_true,
    hread]

theorem nextKey_first (name : String) (text rest : List Char) :
    nextKey true (member name text ++ rest) = .ok (some name, ':' :: (text ++ rest)) := by
  have hkey := key_member name text rest
  rw [member, quoted, List.cons_append, List.cons_append] at hkey ⊢
  rw [nextKey, skipSpace_of_not_space (by decide)]
  simp only [hkey]
  rfl

theorem nextKey_next (name : String) (text rest : List Char) :
    nextKey false (',' :: (member name text ++ rest)) = .ok (some name, ':' :: (text ++ rest)) := by
  have hkey := key_member name text rest
  rw [member, quoted, List.cons_append, List.cons_append] at hkey ⊢
  rw [nextKey, skipSpace_of_not_space (by decide)]
  simp only [skipSpace_of_not_space (show isSpace '"' = false by decide), hkey]
  rfl

theorem colon_next (rest : List Char) : colon (':' :: rest) = .ok rest := rfl

variable (name : α → String)

theorem membersWith_continued {xs : List α} (h : ∀ x ∈ xs, Spells (written x) (meant x) height)
    (hdepth : height < depth) (rest : List Char) {fuel : Nat}
    (hfuel : 2 * (continued (xs.map fun x => member (name x) (written x))).length + 1 ≤ fuel) :
    membersWith fuel depth false
        (continued (xs.map fun x => member (name x) (written x)) ++ '}' :: rest) =
      .ok (xs.map fun x => (name x, meant x), rest) := by
  induction xs generalizing fuel with
  | nil =>
    cases fuel with
    | zero => cases hfuel
    | succ fuel => rfl
  | cons x xs ih =>
    cases fuel with
    | zero => cases hfuel
    | succ fuel =>
      rw [List.map_cons, continued_cons, List.length_cons, List.length_append] at hfuel
      have hx := h x List.mem_cons_self
      have hlength : (written x).length ≤ (member (name x) (written x)).length := by
        simp only [member, List.length_append, List.length_cons]
        omega
      have hvalue := hx.reads_continued (show 2 * (written x).length ≤ fuel by omega) hdepth
        (xs.map fun x => member (name x) (written x)) (.inr (.inr rfl)) rest
      have hmore := ih (fun y hy => h y (List.mem_cons_of_mem _ hy))
        (show 2 * (continued (xs.map fun x => member (name x) (written x))).length + 1 ≤ fuel by
          omega)
      rw [List.map_cons, continued_cons, List.cons_append, List.append_assoc, membersWith,
        nextKey_next]
      simp only [colon_next, hvalue, hmore, List.map_cons]

theorem membersWith_separated {xs : List α} (h : ∀ x ∈ xs, Spells (written x) (meant x) height)
    (hdepth : height < depth) (rest : List Char) {fuel : Nat}
    (hfuel : 2 * (separated (xs.map fun x => member (name x) (written x))).length + 1 ≤ fuel) :
    membersWith fuel depth true
        (separated (xs.map fun x => member (name x) (written x)) ++ '}' :: rest) =
      .ok (xs.map fun x => (name x, meant x), rest) := by
  cases fuel with
  | zero => cases hfuel
  | succ fuel =>
    cases xs with
    | nil => rfl
    | cons x xs =>
      rw [List.map_cons, separated_cons, List.length_append] at hfuel
      have hx := h x List.mem_cons_self
      have hlength : (written x).length < (member (name x) (written x)).length := by
        simp only [member, List.length_append, List.length_cons]
        omega
      have hvalue := hx.reads_continued (show 2 * (written x).length ≤ fuel by omega) hdepth
        (xs.map fun x => member (name x) (written x)) (.inr (.inr rfl)) rest
      have hmore := membersWith_continued name
        (fun y hy => h y (List.mem_cons_of_mem _ hy)) hdepth rest
        (show 2 * (continued (xs.map fun x => member (name x) (written x))).length + 1 ≤ fuel by
          omega)
      rw [List.map_cons, separated_cons, List.append_assoc, membersWith, nextKey_first]
      simp only [colon_next, hvalue, hmore, List.map_cons]

theorem prints_member {cs : List Char} (h : ∀ c ∈ cs, 32 ≤ c.toNat) (name : String) :
    ∀ c ∈ member name cs, 32 ≤ c.toNat := by
  intro c hc
  rw [member, List.mem_append, List.mem_cons] at hc
  rcases hc with hc | hc | hc
  · exact prints_quoted name c hc
  · rw [hc]
    decide
  · exact h c hc

theorem object_map (name : α → String) (written : α → List Char) (xs : List α) :
    object (xs.map fun x => (name x, written x)) =
      '{' :: (separated (xs.map fun x => member (name x) (written x)) ++ ['}']) := by
  rw [object, List.map_map]
  rfl

theorem spells_object {xs : List α} (h : ∀ x ∈ xs, Spells (written x) (meant x) height) :
    Spells (object (xs.map fun x => (name x, written x)))
      (.object (xs.map fun x => (name x, meant x))) (height + 1) where
  visible := ⟨'{', _, rfl, by decide, by decide⟩
  reads fuel depth c rest hfuel hdepth _ := by
    rw [object_map] at hfuel ⊢
    rw [List.length_cons, List.length_append] at hfuel
    cases fuel with
    | zero => omega
    | succ fuel =>
      have hmembers := membersWith_separated name h (show height < depth - 1 by omega)
        (c :: rest)
        (show 2 * (separated (xs.map fun x => member (name x) (written x))).length + 1 ≤ fuel by
          omega)
      have hdeep : ¬ depth ≤ 1 := by omega
      have hbrace : '{' ≠ '[' := by decide
      rw [List.cons_append, List.append_assoc, valueWith, skipSpace_of_not_space (by decide)]
      simp only [if_neg hbrace, if_true, if_neg hdeep, List.singleton_append, hmembers]
  prints := by
    rw [object_map]
    refine prints_enclosed (by decide) (by decide) (prints_separated ?_)
    intro cs hcs
    obtain ⟨x, hx, heq⟩ := List.mem_map.1 hcs
    rw [← heq]
    exact prints_member (h x hx).prints _

end Parts

end Json
end Unslide
