/-!
# Unslide.Address

Addresses, sizes and file offsets of a 64-bit machine, as natural numbers. Every sum of an address
and a size is taken exactly and compared with `top`; only file offsets are counted modulo `2 ^ 64`,
by `wrap`.

Page arithmetic is done for page sizes that are powers of two. A page size of `0` stands for "no
alignment": then every address has page offset `0`.

* `isPowerOfTwo_iff`: the test accepts the powers of two and nothing else.
-/

namespace Unslide

/-- The last address of the address space. An interval may end there, exclusively. -/
def top : Nat := 0xffffffffffffffff

/-- The largest process or thread number. -/
def topId : Nat := 0xffffffff

/-- File offsets are counted modulo the size of the address space. -/
def wrap (n : Nat) : Nat := n % (top + 1)

def isPowerOfTwo (n : Nat) : Bool := n == Nat.pow 2 n.log2

theorem isPowerOfTwo_iff {n : Nat} : isPowerOfTwo n = true ↔ ∃ k, n = Nat.pow 2 k := by
  constructor
  · intro h
    exact ⟨n.log2, by simpa [isPowerOfTwo] using h⟩
  · rintro ⟨k, rfl⟩
    simp [isPowerOfTwo, Nat.log2_two_pow]

/-- The page size that a requested alignment stands for: itself if it is a power of two, else
none. -/
def pageSize (alignment : Nat) : Nat := if isPowerOfTwo alignment then alignment else 0

/-- Distance of an address from the start of its page, `0` without alignment. -/
def pageOffset (page addr : Nat) : Nat := if page = 0 then 0 else addr % page

/-- Lowest address at or above `floor` with page offset `offset`, if it exists below the top. -/
def alignedFrom (page offset floor : Nat) : Option Nat :=
  if page = 0 then some floor
  else
    let candidate := floor - floor % page + offset
    if top < candidate then none
    else if floor ≤ candidate then some candidate
    else if top < candidate + page then none
    else some (candidate + page)

end Unslide
