/-!
# Unslide.Path

Paths of files: names with slashes between them. Several slashes in a row count as one. A slash in
front makes the path start at the root of all files; one behind the last name says that the name is
that of a directory.
-/

namespace Unslide

structure Path where
  absolute : Bool
  names : List String
  /-- A slash stands behind the last name. -/
  slash : Bool
  deriving DecidableEq, Repr

namespace Path

/-- The most bytes that a path may have. -/
def longest : Nat := 4095

/-- The most bytes that a name may have. -/
def longestName : Nat := 255

/-- What was collected of a name, last character first, as the only name, unless it is empty. -/
def ended (part : List Char) : List (List Char) := if part = [] then [] else [part.reverse]

/-- The names of a path from one place on; `part` was collected of the name that ends there, last
character first. -/
def parts (part : List Char) : List Char → List (List Char)
  | [] => ended part
  | c :: rest => if c = '/' then ended part ++ parts [] rest else parts (c :: part) rest

def ofString (text : String) : Path where
  absolute := text.toList.head? = some '/'
  names := (parts [] text.toList).map String.ofList
  slash := text.toList.getLast? = some '/'

/-- The name is longer than any name can be. -/
def Overlong (name : String) : Prop := longestName < name.utf8ByteSize

instance (name : String) : Decidable (Overlong name) := inferInstanceAs (Decidable (_ < _))

end Path
end Unslide
