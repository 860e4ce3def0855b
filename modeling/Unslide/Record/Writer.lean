import Unslide.Json.Writer
import Unslide.Record.Reader

/-!
# Unslide.Record.Writer

Writing one record of a capture: a compact JSON object with its kind first and then all its fields
in the order of their layout.
-/

namespace Unslide
namespace Record

open Json

def kindOf : Event → Kind
  | .mmap _ => .mmap
  | .fork _ => .fork
  | .exit _ => .exit
  | .comm _ => .comm
  | .sample _ => .sample

def branchJson (b : Branch) : List Char :=
  object [("from_ip", number b.source), ("to_ip", number b.target),
    ("mispredicted", Json.flag b.mispredicted)]

/-- The members of a birth or an end. -/
def lineageMembers (e : Lineage) : List (String × List Char) :=
  [("pid", number e.pid), ("ppid", number e.ppid), ("tid", number e.tid), ("ptid", number e.ptid)]

def members : Event → List (String × List Char)
  | .mmap e =>
    [("pid", number e.pid), ("tid", number e.tid), ("start", number e.start), ("len", number e.len),
      ("pgoff", number e.pgoff), ("filename", quoted e.filename), ("is_kernel", Json.flag e.kernel)]
  | .fork e => lineageMembers e
  | .exit e => lineageMembers e
  | .comm e => [("pid", number e.pid), ("tid", number e.tid), ("comm", quoted e.comm)]
  | .sample e =>
    [("pid", number e.pid), ("tid", number e.tid), ("ip", number e.ip),
      ("callchain", array (e.callchain.map number)),
      ("branch_stack", array (e.branches.map branchJson))]

def written (e : Event) : List Char :=
  object ((kindKey, quoted (kindOf e).name) :: members e)

end Record
end Unslide
