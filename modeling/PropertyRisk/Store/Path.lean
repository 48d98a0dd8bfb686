/-!
# Paths

A path leads from a folder up some steps and down some names. A step `..` takes
away the name before it, and a step `.` and an empty one are none. A path with a
slash in front leads elsewhere.
-/

namespace PropertyRisk

/-- Where a path leads. -/
structure Place where
  /-- How many steps up come first; none if the path does not start from the folder. -/
  up : Option Nat
  names : List String
deriving DecidableEq, Repr

namespace Place

/-- Take one step of a path. -/
def step (place : Place) (name : String) : Place :=
  if name = "" || name = "." then place
  else if name = ".." then
    match place.names with
    | [] => { place with up := place.up.map (· + 1) }
    | names => { place with names := names.dropLast }
  else { place with names := place.names ++ [name] }

def ofPath (path : String) : Place :=
  (path.splitOn "/").foldl step ⟨if path.startsWith "/" then none else some 0, []⟩

/-- The name of a file in the folder itself. -/
def file? : Place → Option String
  | ⟨some 0, [name]⟩ => some name
  | _ => none

/-- The longest name that a file may have, in bytes. -/
def nameLimit : Nat := 255

/-- The longest path that can be looked up, with room for that of the folder. -/
def pathLimit : Nat := 4075

/-- Whether a place is too long to be looked up. Names after the first do not
matter, as there are no folders. -/
def isTooLong (place : Place) : Bool :=
  match place.names with
  | [] => false
  | first :: _ =>
    decide (nameLimit < first.utf8ByteSize) ||
      decide (pathLimit < ("/".intercalate place.names).utf8ByteSize)

end Place

end PropertyRisk
