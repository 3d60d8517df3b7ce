import BomAssembly.Text.Split

/-!
# Paths of files

A path is a text cut at slashes. Empty steps and steps of one dot mean nothing, save a dot at the
start of a relative path. Two paths are the same when their components are. A path's file name is its
last component, unless that is the root or a step of dots.
-/

namespace BomAssembly.FilePath

open Text (pieces joined cutLast)

/-- A step of a path. -/
inductive Component where
  | root
  | here
  | up
  | name (name : List Char)
  deriving DecidableEq

/-- Whether a piece of a path means nothing. -/
def isIdle (piece : List Char) : Bool := piece.isEmpty || piece == ['.']

/-- The step that a piece makes, if any. -/
def stepOf (piece : List Char) : Option Component :=
  if isIdle piece then none else if piece = ['.', '.'] then some .up else some (.name piece)

/-- The step that the first piece makes. -/
def firstStep (path piece : List Char) : Option Component :=
  if path.head? = some '/' then some .root
  else if piece = ['.'] then some .here
  else stepOf piece

/-- The steps of a path. -/
def components (path : List Char) : List Component :=
  match pieces '/' path with
  | [] => []
  | first :: rest => (firstStep path first).toList ++ rest.filterMap stepOf

/-- Whether two paths have the same steps. -/
def Same (p q : String) : Prop := components p.toList = components q.toList

instance (p q : String) : Decidable (Same p q) := by
  unfold Same
  infer_instance

/-- The file name of a path. -/
def fileName? (path : List Char) : Option (List Char) :=
  match (components path).getLast? with
  | some (.name n) => some n
  | _ => none

/-- A file name cut at its last dot, unless that is the first character. -/
def splitName (name : List Char) : List Char × Option (List Char) :=
  match cutLast '.' name with
  | some ([], _) => (name, none)
  | some (stem, extension) => (stem, some extension)
  | none => (name, none)

/-- The path of the directory that a file's name stands in. -/
def parent (path : List Char) : List Char :=
  match pieces '/' path with
  | [] => []
  | first :: rest =>
    let dropIdle := List.dropWhile isIdle
    match dropIdle rest.reverse with
    | [] => []
    | _ :: before =>
      match (dropIdle before).reverse with
      | [] => if path.head? = some '/' then ['/'] else first
      | kept => joined ['/'] (first :: kept)

/-- A path with another one behind it; an absolute one takes its place. -/
def append (path more : List Char) : List Char :=
  if more.head? = some '/' then more
  else if path.isEmpty || path.getLast? = some '/' then path ++ more
  else path ++ '/' :: more

/-- A path with another file name. -/
def withFileName (path name : List Char) : List Char :=
  append (if (fileName? path).isSome then parent path else path) name

/-- `append` on strings. -/
def join (path more : String) : String := String.ofList (append path.toList more.toList)

end BomAssembly.FilePath
