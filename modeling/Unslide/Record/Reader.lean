import Unslide.Event
import Unslide.Json.Reader
import Unslide.Record.Fields

/-!
# Unslide.Record.Reader

Reading one record of a capture from its line. The record is an object or a list. Its kind stands
under the key `type`, or in the first element; everything else are its fields. What is wrong with
the kind is found while the line is read, so it comes before any fault of the text behind it; fields
are only looked at when the whole record was read.

* `ofName?_name`: a kind is known by its name.
-/

namespace Unslide
namespace Record

open Json

inductive Kind where
  | mmap
  | fork
  | exit
  | comm
  | sample
  deriving DecidableEq, Repr

namespace Kind

def name : Kind → String
  | .mmap => "mmap"
  | .fork => "fork"
  | .exit => "exit"
  | .comm => "comm"
  | .sample => "sample"

def all : List Kind := [.mmap, .fork, .exit, .comm, .sample]

def ofName? (name : String) : Option Kind := all.find? (fun k => k.name == name)

theorem ofName?_name (k : Kind) : ofName? k.name = some k := by
  cases k <;> decide

end Kind

/-- The key under which a record has its kind. -/
def kindKey : String := "type"

/-- The kind of a record, at the start of a text. -/
def kindAt (text : List Char) : Scan Kind :=
  match skipSpace text with
  | [] => .error (.ahead [] (.unfinished .value))
  | c :: rest =>
    if c = '"' then
      match Json.text rest with
      | .error f => .error f
      | .ok (s, behind) =>
        match Kind.ofName? s with
        | some k => .ok (k, behind)
        | none => .error (.here behind (.mismatch (.unknownName s (Kind.all.map Kind.name))))
    else if c = '[' then
      .error (.here (c :: rest) (.mismatch (.wrongType (.array []) "variant identifier")))
    else if c = '{' then
      .error (.here (c :: rest) (.mismatch (.wrongType (.object []) "variant identifier")))
    else
      match scalar (c :: rest) with
      | .error f => .error f
      | .ok (v, behind) => .error (.here behind (.mismatch (.wrongType v "variant identifier")))

/-- The text behind the end of an object, if that comes next. -/
def pastEnd (text : List Char) : List Char :=
  match skipSpace text with
  | '}' :: rest => rest
  | rest => rest

/-- The members of a record from the next one on, its kind apart; `kind` is that of the members
before them. Each step takes at least one character of the text, and one of `budget`. -/
def membersFrom : List Char → Option Kind → Bool → List Char → Scan (Kind × List (String × Value))
  | [], _, _, text => .error (.here text (.unfinished .object))
  | _ :: budget, kind, first, text =>
    match nextKey first text with
    | .error f => .error f
    | .ok (none, behind) =>
      match kind with
      | none => .error (.here behind (.mismatch (.missing kindKey)))
      | some k => .ok ((k, []), behind)
    | .ok (some name, rest) =>
      if name = kindKey then
        if kind.isSome then .error (.here (pastEnd rest) (.mismatch (.repeated kindKey)))
        else
          match colon rest with
          | .error f => .error f
          | .ok start =>
            match kindAt start with
            | .error f => .error f
            | .ok (k, more) => membersFrom budget (some k) false more
      else
        match colon rest with
        | .error f => .error f
        | .ok start =>
          match value start with
          | .error f => .error f
          | .ok (v, more) =>
            match membersFrom budget kind false more with
            | .error f => .error f
            | .ok ((k, members), behind) => .ok ((k, (name, v) :: members), behind)

/-- The elements of a record given as a list, its kind first. -/
def elementsFrom (text : List Char) : Scan (Kind × List Value) :=
  match nextItem true text with
  | .error f => .error f
  | .ok (false, behind) => .error (.here behind (.mismatch (.missing kindKey)))
  | .ok (true, start) =>
    match kindAt start with
    | .error f => .error f
    | .ok (k, more) =>
      match items false more with
      | .error f => .error f
      | .ok (values, behind) => .ok ((k, values), behind)

/-- The kind and the fields of a record. -/
def recordAt (text : List Char) : Scan (Kind × Body) :=
  match skipSpace text with
  | [] => .error (.ahead [] (.unfinished .value))
  | c :: rest =>
    if c = '{' then
      match membersFrom (c :: rest) none true rest with
      | .error f => .error f
      | .ok ((k, members), behind) => .ok ((k, .named members), behind)
    else if c = '[' then
      match elementsFrom rest with
      | .error f => .error f
      | .ok ((k, values), behind) => .ok ((k, .listed values), behind)
    else
      match scalar (c :: rest) with
      | .error f => .error f
      | .ok (v, behind) =>
        .error (.here behind (.mismatch (.wrongType v "internally tagged enum PerfEvent")))

def branchLayout : Layout :=
  ⟨"struct BranchEntry", [.of "from_ip" word64, .of "to_ip" word64, .of "mispredicted" flag]⟩

def branchOf (b : Body) : Except Mismatch Branch := do
  branchLayout.checkMembers b
  let source ← branchLayout.required 0 word64 b
  let target ← branchLayout.required 1 word64 b
  let mispredicted ← branchLayout.optional 2 flag false b
  branchLayout.checkLength b
  return ⟨source, target, mispredicted⟩

def branch (v : Value) : Except Mismatch Branch :=
  match v with
  | .object members => branchOf (.named members)
  | .array items => branchOf (.listed items)
  | _ => .error (.wrongType v branchLayout.title)

def mmapLayout : Layout :=
  ⟨"struct MmapEvent",
    [.of "pid" word32, .of "tid" word32, .of "start" word64, .of "len" word64, .of "pgoff" word64,
      .of "filename" string, .of "is_kernel" flag]⟩

def mmapOf (b : Body) : Except Mismatch Mmap := do
  mmapLayout.checkMembers b
  let pid ← mmapLayout.required 0 word32 b
  let tid ← mmapLayout.required 1 word32 b
  let start ← mmapLayout.required 2 word64 b
  let len ← mmapLayout.required 3 word64 b
  let pgoff ← mmapLayout.required 4 word64 b
  let filename ← mmapLayout.required 5 string b
  let kernel ← mmapLayout.optional 6 flag false b
  mmapLayout.checkLength b
  return ⟨pid, tid, start, len, pgoff, filename, kernel⟩

def lineageLayout : Layout :=
  ⟨"struct ForkEvent",
    [.of "pid" word32, .of "ppid" word32, .of "tid" word32, .of "ptid" word32]⟩

def lineageOf (b : Body) : Except Mismatch Lineage := do
  lineageLayout.checkMembers b
  let pid ← lineageLayout.required 0 word32 b
  let ppid ← lineageLayout.required 1 word32 b
  let tid ← lineageLayout.required 2 word32 b
  let ptid ← lineageLayout.required 3 word32 b
  lineageLayout.checkLength b
  return ⟨pid, ppid, tid, ptid⟩

def namingLayout : Layout :=
  ⟨"struct CommEvent", [.of "pid" word32, .of "tid" word32, .of "comm" string]⟩

def namingOf (b : Body) : Except Mismatch Naming := do
  namingLayout.checkMembers b
  let pid ← namingLayout.required 0 word32 b
  let tid ← namingLayout.required 1 word32 b
  let comm ← namingLayout.optional 2 string "" b
  namingLayout.checkLength b
  return ⟨pid, tid, comm⟩

def sampleLayout : Layout :=
  ⟨"struct SampleEvent",
    [.of "pid" word32, .of "tid" word32, .of "ip" word64, .of "callchain" (sequence word64),
      .of "branch_stack" (sequence branch)]⟩

def sampleOf (b : Body) : Except Mismatch Sample := do
  sampleLayout.checkMembers b
  let pid ← sampleLayout.required 0 word32 b
  let tid ← sampleLayout.required 1 word32 b
  let ip ← sampleLayout.required 2 word64 b
  let callchain ← sampleLayout.optional 3 (sequence word64) [] b
  let branches ← sampleLayout.optional 4 (sequence branch) [] b
  sampleLayout.checkLength b
  return ⟨pid, tid, ip, callchain, branches⟩

def eventOf (k : Kind) (b : Body) : Except Mismatch Event :=
  match k with
  | .mmap => (mmapOf b).map .mmap
  | .fork => (lineageOf b).map .fork
  | .exit => (lineageOf b).map .exit
  | .comm => (namingOf b).map .comm
  | .sample => (sampleOf b).map .sample

/-- Read a record from its line. Nothing but space may follow it. -/
def read (line : List Char) : Except Fault Event :=
  match recordAt line with
  | .error f => .error f
  | .ok ((k, body), behind) =>
    match eventOf k body with
    | .error m => .error (.placeless m)
    | .ok e =>
      match skipSpace behind with
      | [] => .ok e
      | c :: rest => .error (.ahead (c :: rest) .textTrailing)

end Record
end Unslide
