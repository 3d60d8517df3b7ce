import BomAssembly.Number.DecimalText
import BomAssembly.Request.Lifecycle
import BomAssembly.Text.Split

/-!
# Names of job runs

The name of a job run is that of its request, the ordinal and the name of its phase, and its index,
joined by dashes. The index is read back from behind the last dash.
-/

namespace BomAssembly

/-- The steps that a request may have job runs for. -/
inductive Phase where
  | init
  | generate
  | operationInit
  | operationGenerate
  deriving DecidableEq, Inhabited

namespace Phase

/-- All phases. -/
def all : List Phase := [init, generate, operationInit, operationGenerate]

/-- The place of a phase among all. -/
def ordinal : Phase → Nat
  | init => 0
  | generate => 1
  | operationInit => 2
  | operationGenerate => 3

/-- The name of a phase. -/
def name : Phase → String
  | init => "init"
  | generate => "generate"
  | operationInit => "operationinit"
  | operationGenerate => "operationgenerate"

/-- The phase that generates the BOMs of a kind of request. -/
def generating : Kind → Phase
  | .build => generate
  | .operation => operationGenerate

end Phase

namespace JobRun

/-- What the names of a request's job runs in a phase begin with. -/
def family (request : String) (phase : Phase) : String :=
  s!"{request}-{phase.ordinal}-{phase.name}"

/-- The name of a job run. -/
def nameOf (request : String) (phase : Phase) (index : Nat) : String :=
  s!"{family request phase}-{index}"

/-- The index behind the last dash of a name, below 2^32. -/
def indexOf? (name : String) : Option Nat :=
  (Text.cutLast '-' name.toList).bind fun (_, digits) => Number.naturalBelow? (Nat.pow 2 32) digits

end JobRun

end BomAssembly
