import Unslide.Decimal.Shortest
import Unslide.Refusal
import Unslide.Thread

/-!
# Unslide.Failure

Why the work on a capture fails: a mapping that cannot be registered, or too few samples mapped. The
wording of each failure, and of the cause behind it.
-/

namespace Unslide

inductive Failure where
  /-- The space of the process refused the mapping. -/
  | mappingRefused (id pid : Nat) (filename : String) (refusal : Refusal)
  /-- The start of a mapping is not found right after it was mapped. -/
  | startLost (pid addr : Nat)
  /-- The synthetic start of a mapping lies elsewhere in its page. -/
  | startMoved (real mapped : Nat)
  /-- Fewer samples than the threshold asks for were mapped. -/
  | belowThreshold (mapped total : Nat) (threshold : Float)

namespace Failure

open Text (decimal hex)

def message : Failure → String
  | .mappingRefused id pid filename _ =>
    "Failed to map mmap event #" ++ decimal id ++ " for " ++ pidText pid ++ " (" ++ filename ++ ")"
  | .startLost pid addr =>
    "No mapping for " ++ hex addr ++ " in " ++ pidText pid ++ " right after mapping it"
  | .startMoved real mapped =>
    "Remapped address " ++ hex mapped ++ " has a different page offset than " ++ hex real
  | .belowThreshold mapped total threshold =>
    "Only " ++ decimal mapped ++ " of " ++ decimal total ++ " samples mapped (threshold " ++
      Decimal.Style.plain.write threshold ++ "%)"

/-- The cause behind the failure, if it has one. -/
def cause? : Failure → Option Refusal
  | .mappingRefused _ _ _ refusal => some refusal
  | _ => none

/-- The failure in words, and its cause behind it. -/
def chain (f : Failure) : String :=
  match f.cause? with
  | some refusal => f.message ++ ": " ++ refusal.message
  | none => f.message

end Failure
end Unslide
