import Unslide.Names
import Unslide.Thread

/-!
# Unslide.Images

The files that mappings are backed by, such as programs, libraries and the kernel. An image is known
by its position in the table: the first name met is number `0`. A name keeps its number for good.

* `lookup?_eq_some_iff`: finding the number of a name undoes reading the name under a number.
* `nameOf?_intern`: a name can be read back under the number that it was given.
* `size_intern_le`: the table never shrinks.
-/

namespace Unslide

/-- What is known about a backing file. -/
structure Image where
  name : String
  /-- One of its mappings was marked as the kernel's. -/
  kernel : Bool
  /-- An address was resolved into it. -/
  hit : Bool
  /-- The threads whose addresses were resolved into it, in ascending order. -/
  threads : List Thread
  deriving DecidableEq, Repr

/-- The images in the order in which their names were met. -/
structure Images where
  entries : List Image
  /-- The number of each name, for finding it. -/
  numbers : List (String × Nat)
  indexed : Indexes numbers (entries.map (·.name))
  deriving DecidableEq, Repr

namespace Images

def empty : Images := ⟨[], [], .nil⟩

def size (t : Images) : Nat := t.entries.length

/-- The number of a name. -/
def lookup? (t : Images) (name : String) : Option Nat := t.numbers.lookup name

def get? (t : Images) (id : Nat) : Option Image := t.entries[id]?

def nameOf? (t : Images) (id : Nat) : Option String := (t.get? id).map (·.name)

def names (t : Images) : List String := t.entries.map (·.name)

theorem map_name_modify (entries : List Image) (id : Nat) {f : Image → Image}
    (hf : ∀ i, (f i).name = i.name) :
    (entries.modify id f).map (·.name) = entries.map (·.name) := by
  refine List.ext_getElem? fun k => ?_
  simp only [List.getElem?_map, List.getElem?_modify]
  cases entries[k]? with
  | none => rfl
  | some i =>
    split
    · exact congrArg some (hf i)
    · rfl

/-- Change what is known of one image, but not its name. -/
def modify (t : Images) (id : Nat) (f : Image → Image) (hf : ∀ i, (f i).name = i.name) :
    Images where
  entries := t.entries.modify id f
  numbers := t.numbers
  indexed := by
    rw [map_name_modify t.entries id hf]
    exact t.indexed

/-- Put a name that is not in the table behind the others. -/
def add (t : Images) (name : String) (kernel : Bool) (hnew : t.lookup? name = none) :
    Images where
  entries := t.entries ++ [⟨name, kernel, false, []⟩]
  numbers := (name, t.size) :: t.numbers
  indexed := by
    have hindexed := t.indexed.concat hnew
    rw [List.length_map] at hindexed
    rw [List.map_append]
    exact hindexed

/-- The number of a name, given out if it is new. An image is the kernel's if any mapping of it is
said to be. -/
def intern (t : Images) (name : String) (kernel : Bool) : Images × Nat :=
  match hfound : t.lookup? name with
  | some id => (t.modify id (fun i => { i with kernel := i.kernel || kernel }) fun _ => rfl, id)
  | none => (t.add name kernel hfound, t.size)

/-- The image after an address of `thread` was resolved into it. -/
def Image.record (i : Image) (thread : Thread) : Image :=
  { i with hit := true, threads := Thread.insert thread i.threads }

theorem Image.name_record (i : Image) (thread : Thread) : (Image.record i thread).name = i.name :=
  rfl

def record (t : Images) (id : Nat) (thread : Thread) : Images :=
  t.modify id (fun i => Image.record i thread) fun i => Image.name_record i thread

theorem intern_known {t : Images} {name : String} {id : Nat} (h : t.lookup? name = some id)
    (kernel : Bool) : t.intern name kernel =
      (t.modify id (fun i => { i with kernel := i.kernel || kernel }) fun _ => rfl, id) := by
  unfold intern
  split
  · rename_i found hfound
    rw [h] at hfound
    cases hfound
    rfl
  · rename_i hnone
    rw [h] at hnone
    cases hnone

theorem intern_new {t : Images} {name : String} (h : t.lookup? name = none) (kernel : Bool) :
    t.intern name kernel = (t.add name kernel h, t.size) := by
  unfold intern
  split
  · rename_i found hfound
    rw [h] at hfound
    cases hfound
  · rfl

theorem size_modify (t : Images) (id : Nat) {f : Image → Image} (hf : ∀ i, (f i).name = i.name) :
    (t.modify id f hf).size = t.size := by
  simp [modify, size]

theorem size_intern_le (t : Images) (name : String) (kernel : Bool) :
    t.size ≤ (t.intern name kernel).1.size := by
  cases hfound : t.lookup? name with
  | some id => simp only [intern_known hfound, size_modify, Nat.le_refl]
  | none =>
    rw [intern_new hfound]
    simp [add, size]

theorem names_modify (t : Images) (id : Nat) {f : Image → Image} (hf : ∀ i, (f i).name = i.name) :
    (t.modify id f hf).names = t.names := map_name_modify t.entries id hf

theorem names_add {t : Images} {name : String} (kernel : Bool) (h : t.lookup? name = none) :
    (t.add name kernel h).names = t.names ++ [name] := by
  rw [names, add, List.map_append]
  rfl

theorem nameOf?_eq (t : Images) (id : Nat) : t.nameOf? id = t.names[id]? := by
  rw [nameOf?, get?, names, List.getElem?_map]

theorem lookup?_eq_some_iff (t : Images) (name : String) (id : Nat) :
    t.lookup? name = some id ↔ t.nameOf? id = some name := by
  rw [nameOf?_eq]
  exact t.indexed name id

theorem nameOf?_intern (t : Images) (name : String) (kernel : Bool) :
    (t.intern name kernel).1.nameOf? (t.intern name kernel).2 = some name := by
  cases hfound : t.lookup? name with
  | some id =>
    rw [intern_known hfound, nameOf?_eq, names_modify, ← nameOf?_eq]
    exact (lookup?_eq_some_iff t name id).1 hfound
  | none =>
    rw [intern_new hfound]
    simp [add, nameOf?, get?, size]

end Images
end Unslide
