import Unslide.Text.Numeral

/-!
# Unslide.Refusal

Why an address space refuses to reserve an interval, and the wording of each reason.
-/

namespace Unslide

/-- The reasons for which an interval is not reserved. -/
inductive Refusal where
  /-- The interval is empty or ends beyond the top of the address space. -/
  | invalid (start size : Nat)
  /-- It meets a live region and was not to replace any. -/
  | collision (start size : Nat)
  /-- It would cut the region `oldStart + oldSize` off a page boundary. -/
  | misaligned (start size oldStart oldSize : Nat)
  /-- No free synthetic interval is large enough. -/
  | exhausted (start size : Nat)
  deriving DecidableEq, Repr

namespace Refusal

open Text (hex)

def message : Refusal → String
  | .invalid start size => "Invalid range: addr=" ++ hex start ++ " size=" ++ hex size
  | .collision start size =>
    "Range " ++ hex start ++ "+" ++ hex size ++ " collides with an existing mapping"
  | .misaligned start size oldStart oldSize =>
    "Splitting " ++ hex oldStart ++ "+" ++ hex oldSize ++ " at " ++ hex start ++ "+" ++ hex size ++
      " would move a page-aligned boundary"
  | .exhausted start size =>
    "No free synthetic space for " ++ hex size ++ " bytes at addr=" ++ hex start

end Refusal
end Unslide
