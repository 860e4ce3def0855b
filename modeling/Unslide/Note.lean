import Unslide.Refusal
import Unslide.Region
import Unslide.Tally
import Unslide.Thread

/-!
# Unslide.Note

What the library has to say about its work while it works: one constructor for each kind of
remark, with its level and wording. A note never influences a result.
-/

namespace Unslide

inductive Level where
  | debug
  | info
  | warn
  | error
  deriving DecidableEq, Repr

def Level.text : Level → String
  | .debug => "DEBUG"
  | .info => "INFO"
  | .warn => "WARN"
  | .error => "ERROR"

/-- A remark about one step of the work. -/
inductive Note where
  /-- The page size of a space with regions was left as it was. -/
  | pageKept (regions : Nat)
  | layout (regions page : Nat)
  | layoutRegion (r : Region)
  | carving (old : Region) (start size id : Nat)
  | seededFromParent (pid parent regions : Nat)
  | seededFromKernel (pid regions : Nat)
  | startedEmpty (pid : Nat)
  /-- The kernel's mapping is taken to start at its text. -/
  | kernelTrimmed (start len pgoff : Nat)
  | mappingRefused (id : Nat) (filename : String) (start len pid : Nat) (refusal : Refusal)
  /-- The synthetic start of a mapping lies elsewhere in its page. -/
  | startMoved (mapped start : Nat)
  /-- An address lies in a region whose mapping is not on record. -/
  | unknownMapping (ip id : Nat)
  /-- A synthetic address lies elsewhere in its page. -/
  | addressMoved (mapped ip : Nat)
  /-- A branch follows the padding of its stack. -/
  | strayBranch (source target : Nat)
  | forkIntoExisting (pid : Nat)
  | sampleUnmapped (number ip : Nat)
  | parsed (events : Nat) (tally : Tally)
  | replayed (images spaces unsampled : Nat)
  deriving DecidableEq, Repr

namespace Note

open Text (decimal hex hexDigits)

def level : Note → Level
  | .pageKept _ => .warn
  | .layout _ _ => .debug
  | .layoutRegion _ => .debug
  | .carving _ _ _ _ => .debug
  | .seededFromParent _ _ _ => .debug
  | .seededFromKernel _ _ => .debug
  | .startedEmpty _ => .debug
  | .kernelTrimmed _ _ _ => .debug
  | .mappingRefused _ _ _ _ _ _ => .error
  | .startMoved _ _ => .error
  | .unknownMapping _ _ => .warn
  | .addressMoved _ _ => .warn
  | .strayBranch _ _ => .warn
  | .forkIntoExisting _ => .debug
  | .sampleUnmapped _ _ => .debug
  | .parsed _ _ => .info
  | .replayed _ _ _ => .info

def text : Note → String
  | .pageKept regions =>
    "Ignoring page alignment change on a mapper with " ++ decimal regions ++ " ranges"
  | .layout regions page =>
    "Address mapper with " ++ decimal regions ++ " ranges (page alignment " ++ decimal page ++ "):"
  | .layoutRegion r =>
    "  real " ++ hex r.start ++ "-" ++ hex r.stop ++ " -> mapped " ++ hex r.place ++ "-" ++
      hex r.placeEnd ++ " id=" ++ decimal r.id ++ " offset_base=" ++ hex r.base ++
      " free_after=" ++ hex r.spare
  | .carving old start size id =>
    "Splitting " ++ hex old.start ++ "+" ++ hex old.size ++ " (id " ++ decimal old.id ++
      ") around " ++ hex start ++ "+" ++ hex size ++ " (id " ++ decimal id ++ ")"
  | .seededFromParent pid parent regions =>
    "Seeding " ++ pidText pid ++ " from parent " ++ pidText parent ++ " (" ++ decimal regions ++
      " ranges)"
  | .seededFromKernel pid regions =>
    "Seeding " ++ pidText pid ++ " from the kernel address space (" ++ decimal regions ++ " ranges)"
  | .startedEmpty pid => "Creating empty address space for " ++ pidText pid
  | .kernelTrimmed start len pgoff =>
    "Renormalizing kernel mmap " ++ hex start ++ "+" ++ hex len ++ " to start at " ++ hex pgoff
  | .mappingRefused id filename start len pid refusal =>
    "Failed to map mmap #" ++ decimal id ++ " " ++ filename ++ " " ++ hex start ++ "+" ++ hex len ++
      " for " ++ pidText pid ++ ": " ++ refusal.message
  | .startMoved mapped start =>
    "Remapped mmap start " ++ hex mapped ++ " does not keep the page offset of " ++ hex start
  | .unknownMapping ip id =>
    "Address " ++ hex ip ++ " resolved to unknown mmap #" ++ decimal id
  | .addressMoved mapped ip =>
    "Remapped address " ++ hex mapped ++ " does not keep the page offset of " ++ hex ip
  | .strayBranch source target =>
    "Non-null branch entry " ++ hex source ++ " -> " ++ hex target ++ " after null entry"
  | .forkIntoExisting pid => "Fork into existing address space of " ++ pidText pid
  | .sampleUnmapped number ip =>
    "Sample #" ++ decimal number ++ " at " ++ hex ip ++ " not fully mapped"
  | .parsed events tally => "Parsed " ++ decimal events ++ " events: " ++ tally.text
  | .replayed images spaces unsampled =>
    "Replay done: " ++ decimal images ++ " DSOs, " ++ decimal spaces ++ " address spaces, " ++
      decimal unsampled ++ " unsampled mmaps"

def line (n : Note) : String := n.level.text ++ " " ++ n.text

end Note
end Unslide
