/-!
# Unslide.Text.Blank

White space in the sense of the Unicode property of that name: 25 characters, among them the
no-break space and the ideographic space, but neither the zero-width space nor the byte-order mark.

* `isBlank_of_isWhitespace`: the class holds every character that the core library calls white
  space.
-/

namespace Unslide
namespace Text

/-- The code points of white space, as first and last of each run. -/
def blankRuns : List (Nat × Nat) :=
  [(0x9, 0xd), (0x20, 0x20), (0x85, 0x85), (0xa0, 0xa0), (0x1680, 0x1680), (0x2000, 0x200a),
    (0x2028, 0x2029), (0x202f, 0x202f), (0x205f, 0x205f), (0x3000, 0x3000)]

def isBlank (c : Char) : Bool := blankRuns.any fun run => run.1 ≤ c.toNat && c.toNat ≤ run.2

def isBlankLine (line : String) : Bool := line.toList.all isBlank

theorem isBlank_of_isWhitespace {c : Char} (h : c.isWhitespace = true) : isBlank c = true := by
  simp only [Char.isWhitespace, Bool.or_eq_true, decide_eq_true_eq] at h
  rcases h with ((h | h) | h) | h <;> subst h <;> decide

end Text
end Unslide
