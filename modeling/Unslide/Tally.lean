import Unslide.Decimal.Fixed
import Unslide.Text.Numeral

/-!
# Unslide.Tally

Counters of a run over a capture, the share of samples that were fully mapped, and the test of that
share against a threshold in percent.
-/

namespace Unslide

/-- Numbers of records met so far. -/
structure Tally where
  mmaps : Nat
  forks : Nat
  exits : Nat
  comms : Nat
  samples : Nat
  /-- Samples whose address, call chain and branches were all resolved. -/
  mapped : Nat
  /-- Whether records got synthetic addresses. -/
  remapped : Bool
  deriving DecidableEq, Repr

namespace Tally

def start (remapped : Bool) : Tally := ⟨0, 0, 0, 0, 0, 0, remapped⟩

/-- The share of mapped samples in percent. A run without samples counts as fully mapped. -/
def percentage (t : Tally) : Float :=
  if t.samples = 0 then Decimal.ofCount 100
  else Decimal.ofCount t.mapped * Decimal.ofCount 100 / Decimal.ofCount t.samples

/-- The number of mapped samples, as a double, that a threshold in percent asks for. -/
def required (t : Tally) (threshold : Float) : Float :=
  Decimal.ofCount t.samples * threshold / Decimal.ofCount 100

/-- Fewer samples were mapped than the threshold asks for. A threshold that is not a number asks for
nothing. -/
def FallsShort (t : Tally) (threshold : Float) : Prop :=
  Decimal.ofCount t.mapped < t.required threshold

instance (t : Tally) (threshold : Float) : Decidable (t.FallsShort threshold) :=
  inferInstanceAs (Decidable (_ < _))

def text (t : Tally) : String :=
  "samples: " ++ Text.decimal t.samples ++ " (" ++ Text.decimal t.mapped ++ " mapped, " ++
    Decimal.fixed 1 t.percentage ++ "%), mmaps: " ++ Text.decimal t.mmaps ++ ", forks: " ++
    Text.decimal t.forks ++ ", exits: " ++ Text.decimal t.exits ++ ", comms: " ++
    Text.decimal t.comms ++ ", remap: " ++ (if t.remapped then "yes" else "no")

end Tally
end Unslide
