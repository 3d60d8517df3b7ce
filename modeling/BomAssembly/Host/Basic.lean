/-!
# The host of a command

What a command may ask of the machine that it runs on: to look at files, to read and write them, to
start programs, and to show text. A path is a text; what it means is up to the host, and so is which
programs there are.
-/

namespace BomAssembly

/-- Why a file operation was not done. -/
inductive FileError where
  | notFound
  | alreadyExists
  | notDirectory
  | isDirectory
  | notText
  | other (why : String)
  deriving DecidableEq, Inhabited

/-- The error in the words of the system. -/
def FileError.message : FileError → String
  | notFound => "No such file or directory (os error 2)"
  | alreadyExists => "File exists (os error 17)"
  | notDirectory => "Not a directory (os error 20)"
  | isDirectory => "Is a directory (os error 21)"
  | notText => "stream did not contain valid UTF-8"
  | other why => why

/-- How a program ended. -/
inductive ExitStatus where
  | code (n : Nat)
  /-- It was ended from outside. -/
  | signal (description : String)
  deriving DecidableEq, Inhabited

namespace ExitStatus

/-- The status in the words of the system. -/
def message : ExitStatus → String
  | code n => s!"exit status: {n}"
  | signal description => s!"signal: {description}"

/-- The exit code, if the program ended by itself. -/
def code? : ExitStatus → Option Int
  | code n => some n
  | signal _ => none

end ExitStatus

/-- What may be asked of files. -/
class MonadFiles (m : Type → Type) where
  /-- Whether a path leads to a file. -/
  isFile : String → m Bool
  /-- Whether a path leads to a directory. -/
  isDirectory : String → m Bool
  /-- The text of a file. -/
  read : String → m (Except FileError String)
  /-- Write a file, in place of the one that is there. -/
  write : String → String → m (Except FileError Unit)
  /-- Make a directory, and those above it that are not there. -/
  makeDirectories : String → m (Except FileError Unit)
  /-- Remove a directory and all that is in it. -/
  removeTree : String → m (Except FileError Unit)
  /-- What is below a directory, each by its path from there and whether it is a directory; a
  directory comes before what is in it. -/
  below : String → m (List (String × Bool))

/-- What a command may ask of its host. -/
class MonadHost (m : Type → Type) extends MonadFiles m where
  /-- Start a program with arguments and wait for its end. -/
  start : String → List String → m (Except FileError ExitStatus)
  /-- Show a text to the user. -/
  print : String → m Unit
  /-- Show a line of warning to the user. -/
  warn : String → m Unit

/-- Whether a path leads anywhere. -/
def MonadFiles.isThere {m : Type → Type} [Monad m] [MonadFiles m] (path : String) : m Bool := do
  if ← isFile path then return true else isDirectory path

end BomAssembly
