import BomAssembly.Host.Program
import BomAssembly.Text.SortedMap
import BomAssembly.Text.Split

/-!
# Trees of files

A tree of files held in memory. An entry is kept under the names that lead to it from the root, joined
by slashes. A path is followed name by name: every name but the last has to lead to a directory, and
so does the last one when a slash or a dot comes after it.
-/

namespace BomAssembly

open Text (StringMap)

/-- What a name in a tree leads to. -/
inductive TreeEntry where
  | file (text : String)
  | directory
  deriving DecidableEq, Inhabited

/-- A tree of files. -/
structure FileTree where
  entries : StringMap TreeEntry
  /-- The directory that paths start from, unless they start with a slash. -/
  here : List String
  deriving DecidableEq, Inhabited

namespace FileTree

/-- The names that lead to a place, from the root on. -/
abbrev Place := List String

/-- What a place is kept under. -/
def key (p : Place) : String := String.ofList (Text.joined ['/'] (p.map String.toList))

/-- What is at a place. The root is always a directory. -/
def entry? (t : FileTree) (p : Place) : Option TreeEntry :=
  if p = [] then some .directory else t.entries.get? (key p)

/-- Put an entry at a place. -/
def put (t : FileTree) (p : Place) (e : TreeEntry) : FileTree :=
  { t with entries := t.entries.insert (key p) e }

/-! ## Following paths -/

/-- Whether a piece of a path goes nowhere. -/
def isIdle (piece : List Char) : Bool := piece.isEmpty || piece == ['.']

/-- The names of a path. -/
def namesOf (path : String) : List String :=
  ((Text.pieces '/' path.toList).filter fun p => !isIdle p).map String.ofList

/-- Where a path starts. -/
def startOf (t : FileTree) (path : String) : Place :=
  if path.toList.head? = some '/' then [] else t.here

/-- Whether a path says that it leads to a directory. -/
def meansDirectory (path : String) : Bool :=
  match (Text.pieces '/' path.toList).getLast? with
  | some last => isIdle last
  | none => false

/-- The place that a name leads to from another place. -/
def step (p : Place) (name : String) : Place := if name = ".." then p.dropLast else p ++ [name]

/-- Follow names; all places on the way have to be directories. -/
def follow (t : FileTree) : Place → List String → Except FileError Place
  | p, [] => .ok p
  | p, name :: rest =>
    match t.entry? p with
    | some .directory => t.follow (step p name) rest
    | some (.file _) => .error .notDirectory
    | none => .error .notFound

/-- The place that a path leads to; nothing need be there. -/
def locate (t : FileTree) (path : String) : Except FileError Place :=
  if path = "" then .error .notFound else t.follow (t.startOf path) (namesOf path)

/-- What a path leads to. -/
def look (t : FileTree) (path : String) : Except FileError TreeEntry :=
  match t.locate path with
  | .error e => .error e
  | .ok p =>
    match t.entry? p with
    | none => .error .notFound
    | some (.file text) => if meansDirectory path then .error .notDirectory else .ok (.file text)
    | some .directory => .ok .directory

/-! ## Operations -/

/-- Whether a path leads to a file. -/
def isFile (t : FileTree) (path : String) : Bool :=
  match t.look path with
  | .ok (.file _) => true
  | _ => false

/-- Whether a path leads to a directory. -/
def isDirectory (t : FileTree) (path : String) : Bool :=
  match t.look path with
  | .ok .directory => true
  | _ => false

/-- The text of a file. -/
def read (t : FileTree) (path : String) : Except FileError String :=
  match t.look path with
  | .ok (.file text) => .ok text
  | .ok .directory => .error .isDirectory
  | .error e => .error e

/-- Write a file. -/
def write (t : FileTree) (path text : String) : Except FileError FileTree :=
  match t.locate path with
  | .error e => .error e
  | .ok p =>
    match t.entry? p with
    | some .directory => .error .isDirectory
    | some (.file _) =>
      if meansDirectory path then .error .notDirectory else .ok (t.put p (.file text))
    | none =>
      if meansDirectory path then .error .isDirectory else .ok (t.put p (.file text))

/-- Follow names, making directories where there is nothing. -/
def build (t : FileTree) : Place → List String → Except FileError FileTree
  | _, [] => .ok t
  | p, name :: rest =>
    let p := step p name
    match t.entry? p with
    | some .directory => t.build p rest
    | some (.file _) => .error (if rest.isEmpty then .alreadyExists else .notDirectory)
    | none => (t.put p .directory).build p rest

/-- Make a directory, and those above it that are not there. -/
def makeDirectories (t : FileTree) (path : String) : Except FileError FileTree :=
  t.build (t.startOf path) (namesOf path)

/-- Whether what is kept under a key is below a place. -/
def isBelow (p : Place) (k : String) : Bool := p = [] || Text.startsWith k (key p ++ "/")

/-- Remove a directory and all that is in it. -/
def removeTree (t : FileTree) (path : String) : Except FileError FileTree :=
  match t.locate path, t.look path with
  | .ok p, .ok .directory =>
    let gone := (t.entries.keys.filter (isBelow p)) ++ [key p]
    .ok { t with entries := gone.foldl StringMap.erase t.entries }
  | _, .ok (.file _) => .error .notDirectory
  | .error e, _ => .error e
  | _, .error e => .error e

/-- What is below a directory, each by its path from there and whether it is a directory. -/
def below (t : FileTree) (path : String) : List (String × Bool) :=
  match t.locate path with
  | .error _ => []
  | .ok p =>
    let start := if p = [] then 0 else (key p).length + 1
    (t.entries.entries.filter fun e => isBelow p e.1).map fun e =>
      (String.ofList (e.1.toList.drop start), e.2 = .directory)

/-! ## Making and listing trees -/

/-- A tree that holds nothing but the directory that paths start from. -/
def emptyAt (here : List String) : FileTree :=
  let t : FileTree := ⟨.empty, here⟩
  match t.build [] here with
  | .ok t => t
  | .error _ => t

/-- A tree with files, each given by its path. -/
def ofFiles (here : List String) (files : List (String × String)) : FileTree :=
  files.foldl (fun t f =>
    let names := namesOf f.1
    match t.build here names.dropLast with
    | .ok t => t.put (here ++ names) (.file f.2)
    | .error _ => t) (emptyAt here)

/-- The files below the directory that paths start from, each by its path from there. -/
def files (t : FileTree) : List (String × String) :=
  t.entries.entries.filterMap fun (k, e) =>
    match e with
    | .file text =>
      if isBelow t.here k then
        some (String.ofList (k.toList.drop (if t.here = [] then 0 else (key t.here).length + 1)), text)
      else none
    | .directory => none

end FileTree

/-! ## The tree as a host -/

/-- A run of a command on a tree of files, with what it has shown. -/
structure Session where
  tree : FileTree
  /-- What was shown to the user. -/
  out : String := ""
  /-- The lines of warning. -/
  warnings : List String := []
  deriving DecidableEq, Inhabited

namespace Session

/-- Change the tree, if that can be done. -/
def attempt (f : FileTree → Except FileError FileTree) : StateM Session (Except FileError Unit) :=
  fun s =>
    match f s.tree with
    | .ok t => (.ok (), { s with tree := t })
    | .error e => (.error e, s)

instance : MonadFiles (StateM Session) where
  isFile path := fun s => (s.tree.isFile path, s)
  isDirectory path := fun s => (s.tree.isDirectory path, s)
  read path := fun s => (s.tree.read path, s)
  write path text := attempt fun t => t.write path text
  makeDirectories path := attempt fun t => t.makeDirectories path
  removeTree path := attempt fun t => t.removeTree path
  below path := fun s => (s.tree.below path, s)

instance : MonadHost (StateM Session) where
  start := Program.start
  print text := fun s => ((), { s with out := s.out ++ text })
  warn text := fun s => ((), { s with warnings := s.warnings ++ [text] })

end Session

end BomAssembly
