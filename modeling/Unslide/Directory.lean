import Unslide.Directory.Outside
import Unslide.Path
import Unslide.Program

/-!
# Unslide.Directory

A directory of files as a value, and the program run in it. The directory holds plain files only; a
path can also lead out of it, to the devices and directories that every system has. What differs
from system to system is only the page size that it tells.

* `find?_put_self`, `find?_put_of_ne`: a directory read as a partial function of file names.
-/

namespace Unslide

/-- Files by name, and the streams of a program that runs among them. -/
structure Directory where
  files : List (String × List UInt8)
  input : List UInt8
  output : String
  complaints : String
  /-- The page size that the system tells, if it tells one. -/
  page : Option Nat

namespace Directory

/-- A directory with some files and an input, before the program runs. -/
def start (files : List (String × List UInt8)) (input : List UInt8) (page : Option Nat := none) :
    Directory :=
  ⟨files, input, "", "", page⟩

def find? (d : Directory) (name : String) : Option (List UInt8) := d.files.lookup name

def put (d : Directory) (name : String) (bytes : List UInt8) : Directory :=
  { d with files := (name, bytes) :: d.files.filter (fun f => f.1 ≠ name) }

theorem find?_put_self (d : Directory) (name : String) (bytes : List UInt8) :
    (d.put name bytes).find? name = some bytes := by
  simp [put, find?]

theorem find?_put_of_ne (d : Directory) {name other : String} (bytes : List UInt8)
    (h : other ≠ name) : (d.put name bytes).find? other = d.find? other := by
  simp only [put, find?]
  rw [lookup_cons_of_ne h, lookup_filter_of_ne h]

/-- A directory that a path leads through. -/
inductive Folder where
  | home
  | outer (place : List String)

/-- The directory above. That of the directory itself is one for temporary files. -/
def Folder.above : Folder → Folder
  | .home => .outer ["tmp"]
  | .outer place => .outer place.tail

/-- The directory is one of those that list processes. They keep no files, so no name in them is too
long to be looked up. -/
def Folder.ListsProcesses : Folder → Prop
  | .home => False
  | .outer place => place.getLast? = some "proc"

instance (folder : Folder) : Decidable folder.ListsProcesses :=
  match folder with
  | .home => inferInstanceAs (Decidable False)
  | .outer place => inferInstanceAs (Decidable (place.getLast? = some "proc"))

def enter (d : Directory) (folder : Folder) (name : String) : Except Program.FileFault Folder :=
  if name = "." then .ok folder
  else if name = ".." then .ok folder.above
  else if Path.Overlong name ∧ ¬ folder.ListsProcesses then .error .nameTooLong
  else
    match folder with
    | .home => .error (if (d.find? name).isSome then .notDirectory else .missing)
    | .outer place =>
      match outsideAt? (follow (name :: place)) with
      | some .directory => .ok (.outer (follow (name :: place)))
      | some (.device _) => .error .notDirectory
      | none => .error .missing

inductive Target where
  | folder
  /-- A file of the directory, if there is one of this name. -/
  | file (name : String)
  | device (device : Device)
  /-- Nothing yet, in a directory outside. -/
  | vacant (folder : Folder)
  /-- Nothing, under a name that is too long. -/
  | overlong

/-- What the last name of a path names in a directory. -/
def targetIn (folder : Folder) (name : String) : Target :=
  if name = "." ∨ name = ".." then .folder
  else if Path.Overlong name ∧ ¬ folder.ListsProcesses then .overlong
  else
    match folder with
    | .home => .file name
    | .outer place =>
      match outsideAt? (follow (name :: place)) with
      | some .directory => .folder
      | some (.device device) => .device device
      | none => .vacant folder

/-- What the names of a path lead to from a directory. All but the last have to be directories. -/
def targetFrom (d : Directory) (folder : Folder) : List String → Except Program.FileFault Target
  | [] => .ok .folder
  | [name] => .ok (targetIn folder name)
  | name :: rest =>
    match d.enter folder name with
    | .error fault => .error fault
    | .ok next => d.targetFrom next rest

def target (d : Directory) (path : Path) : Except Program.FileFault Target :=
  d.targetFrom (if path.absolute then .outer [] else .home) path.names

/-- The bytes that a device gives. Only the standard input has any; a device without an end is as
good as an empty one. -/
def readDevice (d : Directory) (path : String) : Device → Except Program.Trouble (List UInt8)
  | .input => .ok d.input
  | .terminal => .error (.cannotOpen path .noDevice)
  | _ => .ok []

/-- The bytes of the file that a path names; `slash` says that it is to be a directory. -/
def readTarget (d : Directory) (path : String) (slash : Bool) :
    Target → Except Program.Trouble (List UInt8)
  | .folder => .error (.cannotRead .isDirectory)
  | .overlong => .error (.cannotOpen path .nameTooLong)
  | .vacant _ => .error (.cannotOpen path .missing)
  | .device device =>
    if slash then .error (.cannotOpen path .notDirectory) else d.readDevice path device
  | .file name =>
    match d.find? name with
    | none => .error (.cannotOpen path .missing)
    | some bytes => if slash then .error (.cannotOpen path .notDirectory) else .ok bytes

def readFile (d : Directory) (path : String) : Except Program.Trouble (List UInt8) :=
  if Path.longest < path.utf8ByteSize then .error (.cannotOpen path .nameTooLong)
  else
    match d.target (.ofString path) with
    | .error fault => .error (.cannotOpen path fault)
    | .ok target => d.readTarget path (Path.ofString path).slash target

def writeDevice (d : Directory) (product : Program.Product) (path text : String) :
    Device → Except Program.Trouble Directory
  | .full => if text.isEmpty then .ok d else .error (.cannotWrite product .noRoom)
  | .terminal => .error (.cannotCreate path .noDevice)
  | .output => .ok { d with output := d.output ++ text }
  | .complaints => .ok { d with complaints := d.complaints ++ text }
  | .null => .ok d
  | .input => .ok d

/-- Make the file that a path names anew. One made outside of the directory is not looked at again,
and where processes are listed none can be made. -/
def writeTarget (d : Directory) (product : Program.Product) (path text : String) :
    Target → Except Program.Trouble Directory
  | .folder => .error (.cannotCreate path .isDirectory)
  | .overlong => .error (.cannotCreate path .nameTooLong)
  | .vacant folder =>
    if folder.ListsProcesses then .error (.cannotCreate path .missing) else .ok d
  | .device device => d.writeDevice product path text device
  | .file name => .ok (d.put name text.toUTF8.data.toList)

def writeFile (d : Directory) (product : Program.Product) (path text : String) :
    Except Program.Trouble Directory :=
  if Path.longest < path.utf8ByteSize then .error (.cannotCreate path .nameTooLong)
  else
    match d.target (.ofString path) with
    | .error fault => .error (.cannotCreate path fault)
    | .ok target =>
      if (Path.ofString path).slash then .error (.cannotCreate path .isDirectory)
      else d.writeTarget product path text target

/-- The directory as surroundings of the program. -/
def host : Program.Host (StateM Directory) where
  page := fun d => (d.page, d)
  read path := fun d =>
    match path with
    | none => (.ok d.input, d)
    | some path => (d.readFile path, d)
  write product path text := fun d =>
    match path with
    | none => (.ok (), { d with output := d.output ++ text })
    | some path =>
      match d.writeFile product path text with
      | .ok d' => (.ok (), d')
      | .error t => (.error t, d)
  complain text := fun d => ((), { d with complaints := d.complaints ++ text })

def run (d : Directory) (arguments : List String) : Nat × Directory :=
  Program.run host arguments d

end Directory
end Unslide
