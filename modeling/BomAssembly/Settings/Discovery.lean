import BomAssembly.FilePath
import BomAssembly.Host.Basic
import BomAssembly.Settings.Document

/-!
# Where settings are found

Settings are looked for in a file that is named, then under four names in the current directory, at
the root of the working tree that it is part of, among the user's configuration, and in the user's
home. The first file that is there counts; when it holds no settings, the standard ones are used.
-/

namespace BomAssembly.Settings

/-- Where a user works. -/
structure Places where
  /-- The current directory, as an absolute path. -/
  here : String
  home : Option String
  /-- The directory of the user's configuration. -/
  config : Option String
  deriving DecidableEq, Inhabited

/-- The names that a file with settings may have. -/
def fileNames : List String := [".sbomgen.yaml", ".sbomgen.yml", "sbomgen.yaml", "sbomgen.yml"]

/-- The directories above a path and the path itself, the closest first. The number bounds how many. -/
def upwards : Nat → List Char → List (List Char)
  | 0, path => [path]
  | n + 1, path =>
    let above := FilePath.parent path
    if above.isEmpty || above = path then [path] else path :: upwards n above

/-- The directories of a path, the closest first. -/
def directoriesUpwards (path : String) : List String :=
  (upwards path.length path.toList).map String.ofList

variable {m : Type → Type} [Monad m] [MonadHost m]

/-- The first path that leads anywhere. -/
def firstThere : List String → m (Option String)
  | [] => return none
  | path :: rest => do
    if ← MonadFiles.isThere path then return some path else firstThere rest

/-- The root of the working tree that a directory is part of. -/
def treeRoot (here : String) : m (Option String) := do
  let found ← firstThere ((directoriesUpwards here).map fun d => FilePath.join d ".git")
  return found.map fun p => String.ofList (FilePath.parent p.toList)

/-- The directories that settings are looked for in, in order. -/
def searchPaths (places : Places) : m (List String) := do
  let root ← treeRoot places.here
  return [places.here] ++ root.toList ++
    (places.config.map fun c => FilePath.join c "sbomgen").toList ++ places.home.toList

/-- The file that settings are read from, if there is one. -/
def discover (places : Places) (named : Option String) : m (Option String) := do
  match ← firstThere named.toList with
  | some path => return some path
  | none =>
    let directories ← searchPaths places
    firstThere (directories.flatMap fun d => fileNames.map fun n => FilePath.join d n)

/-- The settings to work with, and the file that they are from. -/
def current (places : Places) (named : Option String) : m (Settings × Option String) := do
  match ← discover places named with
  | none => return ({}, none)
  | some path =>
    let text ← MonadFiles.read path
    match load path text.toOption with
    | .ok s => return (s, some path)
    | .error _ => return ({}, none)

end BomAssembly.Settings
