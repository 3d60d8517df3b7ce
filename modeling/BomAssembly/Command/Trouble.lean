import BomAssembly.Failure
import BomAssembly.Host.Basic

/-!
# Trouble with commands

Why a command did not do what it was asked, and what it was doing then: a chain of texts, outermost
first, that ends in the words of the failure, of the system, or of the reader of a document.
-/

namespace BomAssembly

/-- Why a command did not do what it was asked. -/
inductive Trouble where
  | failed (failure : Failure)
  | unwritable (error : DocumentError)
  | file (error : FileError)
  /-- A document is not what it should be. -/
  | malformed (what : String)
  | refused (message : String)
  | within (doing : String) (cause : Trouble)
  deriving DecidableEq, Inhabited

namespace Trouble

/-- The chain of texts. -/
def chain : Trouble → List String
  | failed f => f.chain
  | unwritable e => [e.message]
  | file e => [e.message]
  | malformed what => [s!"malformed {what}"]
  | refused message => [message]
  | within doing cause => doing :: cause.chain

/-- Number the texts of a list from a number on, one to a line. -/
def numbered : Nat → List String → String
  | _, [] => ""
  | i, t :: rest => s!"\n    {i}: {t}{numbered (i + 1) rest}"

/-- The chain as it is shown to a user. -/
def text (t : Trouble) : String :=
  match t.chain with
  | [] => "Error: "
  | [first] => s!"Error: {first}"
  | [first, cause] => s!"Error: {first}\n\nCaused by:\n    {cause}"
  | first :: causes => s!"Error: {first}\n\nCaused by:{numbered 0 causes}"

end Trouble

/-- What a command does, or the trouble that it met. -/
abbrev CommandM (m : Type → Type) := ExceptT Trouble m

namespace CommandM

variable {m : Type → Type} [Monad m] {α : Type}

/-- Say what the command was doing when it met trouble. -/
def doing (what : String) (action : CommandM m α) : CommandM m α :=
  ExceptT.adapt (Trouble.within what) action

/-- The result of a file operation. -/
def ofFile (result : m (Except FileError α)) : CommandM m α :=
  ExceptT.mk do return (← result).mapError Trouble.file

/-- A value, or the trouble there is instead. -/
def ofExcept {ε : Type} (trouble : ε → Trouble) : Except ε α → CommandM m α
  | .ok a => return a
  | .error e => throw (trouble e)

/-- A value read from a document, or the trouble that it is malformed. -/
def ofReader (what : String) : Option α → CommandM m α
  | some a => return a
  | none => throw (.malformed what)

end CommandM

end BomAssembly
