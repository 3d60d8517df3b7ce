import BomAssembly.CommandLine.Run
import BomAssembly.Host.Program

/-!
# The program

The machine as a host for commands: its files, the programs of the table on those files, its standard
output for what is shown, and its standard error for warnings. All decisions are made by
`CommandLine.run`.
-/

namespace BomAssembly.Main

/-- A system error as the error of a file operation. -/
def fileErrorOf : IO.Error → FileError
  | .noFileOrDirectory .. => .notFound
  | .alreadyExists .. => .alreadyExists
  | .inappropriateType _ code _ => if code = 21 then .isDirectory else .notDirectory
  | .permissionDenied _ code details => .other s!"{details} (os error {code})"
  | e => .other (toString e)

/-- Do something with files; an error becomes part of the answer. -/
def attempt {α : Type} (action : IO α) : IO (Except FileError α) := do
  try
    return .ok (← action)
  catch e =>
    return .error (fileErrorOf e)

/-- A path, seen from the current directory. -/
def located (path : String) := (do return (← IO.currentDir) / path : IO _)

/-- Whether a path leads to a directory. -/
def isDirectory (path : String) : IO Bool := do (← located path).isDir

/-- Whether a path leads to a file. -/
def isFile (path : String) : IO Bool := do
  if ← isDirectory path then return false else (← located path).pathExists

/-- The text of a file. -/
def readText (path : String) : IO (Except FileError String) := do
  match ← attempt (IO.FS.readBinFile path) with
  | .error e => return .error e
  | .ok bytes =>
    match String.fromUTF8? bytes with
    | some text => return .ok text
    | none => return .error .notText

/-- What is below a directory, each by its path from there and whether it is a directory. -/
def below (path : String) : IO (List (String × Bool)) := do
  let top ← located path
  let start := top.toString.length + 1
  let found ← attempt top.walkDir
  (found.toOption.getD #[]).toList.mapM fun p => do
    return (String.ofList (p.toString.toList.drop start), ← p.isDir)

instance : MonadFiles IO where
  isFile := isFile
  isDirectory := isDirectory
  read := readText
  write path text := attempt (IO.FS.writeFile path text)
  makeDirectories path := attempt (IO.FS.createDirAll path)
  removeTree path := attempt (IO.FS.removeDirAll path)
  below := below

instance : MonadHost IO where
  start := Program.start
  print text := do
    IO.print text
    (← IO.getStdout).flush
  warn line := IO.eprintln line

/-- Where the user works. -/
def places : IO Settings.Places := do
  let here ← IO.currentDir
  let home := (← IO.getEnv "HOME").filter (· ≠ "")
  let config := (← IO.getEnv "XDG_CONFIG_HOME").filter fun p => p.toList.head? = some '/'
  let standard := home.map fun h => FilePath.join h ".config"
  return ⟨here.toString, home, config.orElse fun _ => standard⟩

/-- Random texts for a new request. -/
def draw : IO Intake.Draw := do
  let tail ← IO.rand 0 (Nat.pow 2 32 - 1)
  let id ← IO.rand 0 (Nat.pow 2 64 - 1)
  return .ofNumbers tail.toUInt64 id.toUInt64

end BomAssembly.Main

/-- Run the program; the answer is its exit code. -/
def main (args : List String) : IO UInt32 := do
  let code ← BomAssembly.CommandLine.run (← BomAssembly.Main.places) (← BomAssembly.Main.draw) args
  return code.toUInt32
