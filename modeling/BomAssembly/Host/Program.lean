import BomAssembly.FilePath
import BomAssembly.Host.Basic

/-!
# Programs on files

A table of programs for a host that has nothing but files: one that copies files, and two that do
nothing and end well or badly. Anything else cannot be started there. The copier takes one source and a
target, or several sources and a directory; a source that cannot be copied does not keep the others
from being copied, and directories are copied when that is asked for.
-/

namespace BomAssembly.Program

variable {m : Type → Type} [Monad m] [MonadFiles m]

/-- What the copier was asked. -/
structure CopyRequest where
  /-- Copy directories with all that is in them. -/
  recursive : Bool
  operands : List String

/-- The letters of options that make no difference to which files are copied. -/
def quietLetters : List Char := ['f', 'p', 'd', 'v', 'L', 'P', 'H']

/-- The letters of options that ask for directories to be copied. -/
def recursiveLetters : List Char := ['r', 'R', 'a']

/-- Read the arguments of the copier; nothing if there is an option that it does not know. -/
def copyRequest? : List String → Option CopyRequest
  | [] => some ⟨false, []⟩
  | a :: rest =>
    if a = "--" then some ⟨false, rest⟩
    else if a = "--recursive" then (copyRequest? rest).map fun r => { r with recursive := true }
    else
      match a.toList with
      | '-' :: c :: cs =>
        let letters := c :: cs
        if letters.all fun l => l ∈ quietLetters || l ∈ recursiveLetters then
          (copyRequest? rest).map fun r =>
            { r with recursive := r.recursive || letters.any (· ∈ recursiveLetters) }
        else none
      | _ => (copyRequest? rest).map fun r => { r with operands := a :: r.operands }

/-- Copy a file; the answer says whether that was done. -/
def copyFile (source target : String) : m Bool := do
  match ← MonadFiles.read source with
  | .error _ => return false
  | .ok text =>
    match ← MonadFiles.write target text with
    | .ok () => return true
    | .error _ => return false

/-- Copy what is below a directory. -/
def copyBelow (source target : String) : List (String × Bool) → m Bool
  | [] => return true
  | (path, isDirectory) :: rest => do
    let done ←
      if isDirectory then do
        let made ← MonadFiles.makeDirectories (FilePath.join target path)
        pure made.toBool
      else copyFile (FilePath.join source path) (FilePath.join target path)
    let others ← copyBelow source target rest
    return done && others

/-- The directory that a path is in. -/
def directoryOf (path : String) : String :=
  match FilePath.parent path.toList with
  | [] => "."
  | d => String.ofList d

/-- Copy a directory. -/
def copyDirectory (source target : String) : m Bool := do
  let contents ← MonadFiles.below source
  if ← MonadFiles.isDirectory target then copyBelow source target contents
  else if ← MonadFiles.isDirectory (directoryOf target) then
    match ← MonadFiles.makeDirectories target with
    | .ok () => copyBelow source target contents
    | .error _ => return false
  else return false

/-- Whether two paths lead to the same place, as far as can be told from them. -/
def samePlace (p q : String) : Bool :=
  let steps (p : String) := (FilePath.components p.toList).filter (· ≠ .here)
  steps p = steps q

/-- Copy one source to a target that no other source was copied to. -/
def copyOne (recursive : Bool) (made : List String) (source target : String) : m Bool := do
  if target ∈ made ∨ samePlace source target then return false
  else if ← MonadFiles.isDirectory source then
    if recursive then copyDirectory source target else return false
  else if ← MonadFiles.isDirectory target then return false
  else copyFile source target

/-- The path of a source inside a directory. -/
def inside (directory source : String) : String :=
  match FilePath.fileName? source.toList with
  | some name => FilePath.join directory (String.ofList name)
  | none => FilePath.join directory source

/-- Copy sources into a directory. -/
def copyInto (recursive : Bool) (directory : String) : List String → List String → m Bool
  | _, [] => return true
  | made, source :: rest => do
    let target := inside directory source
    let done ← copyOne recursive made source target
    let others ← copyInto recursive directory (target :: made) rest
    return done && others

/-- Do what the copier was asked. -/
def copy (r : CopyRequest) : m Bool := do
  match r.operands.reverse with
  | target :: source :: more =>
    if ← MonadFiles.isDirectory target then
      copyInto r.recursive target [] (source :: more).reverse
    else if more.isEmpty then copyOne r.recursive [] source target
    else return false
  | _ => return false

/-- Start a program of the table. -/
def start (name : String) (args : List String) : m (Except FileError ExitStatus) := do
  match name with
  | "true" => return .ok (.code 0)
  | "false" => return .ok (.code 1)
  | "cp" =>
    match copyRequest? args with
    | none => return .ok (.code 1)
    | some r => return .ok (.code (if ← copy r then 0 else 1))
  | _ => return .error .notFound

end BomAssembly.Program
