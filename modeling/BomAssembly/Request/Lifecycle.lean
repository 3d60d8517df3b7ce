import BomAssembly.Failure
import BomAssembly.Text.Blank
import BomAssembly.Text.LetterCase

/-!
# The life of a request

A request is new, then possibly preparing (only for an operation), then generating, and ends in
success or failure. The rank of its status never falls; success follows generating only; failure can
follow every status but the two last ones.
-/

namespace BomAssembly

/-- What a request generates BOMs for. -/
inductive Kind where
  | build
  | operation
  deriving DecidableEq, Inhabited

namespace Kind

/-- The name on labels and in records. -/
def name : Kind → String
  | build => "BUILD"
  | operation => "OPERATION"

/-- The tag inside a configuration. -/
def tag : Kind → String
  | build => "build"
  | operation => "operation"

/-- Read a name in any case of letters. -/
def parse (s : String) : Except Failure Kind :=
  match Text.uppercase (Text.trimmed s) with
  | "BUILD" => .ok build
  | "OPERATION" => .ok operation
  | other => .error (.validation s!"unknown generation type '{other}'")

end Kind

/-- How far a request has come. -/
inductive Status where
  | new
  | preparing
  | generating
  | success
  | failed
  deriving DecidableEq, Inhabited

namespace Status

/-- The name on labels and in records. -/
def name : Status → String
  | new => "NEW"
  | preparing => "PREPARING"
  | generating => "GENERATING"
  | success => "SUCCESS"
  | failed => "FAILED"

/-- Read a name in any case of letters. -/
def parse (s : String) : Except Failure Status :=
  match Text.uppercase (Text.trimmed s) with
  | "NEW" => .ok new
  | "PREPARING" => .ok preparing
  | "GENERATING" => .ok generating
  | "SUCCESS" => .ok success
  | "FAILED" => .ok failed
  | other => .error (.validation s!"unknown generation status '{other}'")

/-- Whether nothing follows. -/
def isTerminal : Status → Bool
  | success | failed => true
  | _ => false

/-- The place in the order of a life. -/
def rank : Status → Nat
  | new => 0
  | preparing => 1
  | generating => 2
  | success | failed => 3

/-- Whether a status may follow another. -/
def MayFollow (next s : Status) : Prop :=
  s.isTerminal = false ∧
    (next = failed ∨ (next = success ∧ s = generating) ∨
      (next.isTerminal = false ∧ s.rank < next.rank))

instance (next s : Status) : Decidable (next.MayFollow s) := by
  unfold MayFollow
  infer_instance

end Status

/-- How a request, or the command of a job run, has ended. -/
inductive Outcome where
  | success
  | general
  | configInvalid
  | configMissing
  | indexInvalid
  | generation
  | timeout
  | system
  deriving DecidableEq, Inhabited

namespace Outcome

/-- The exit code of the command. -/
def code : Outcome → Nat
  | success => 0
  | general => 1
  | configInvalid => 2
  | configMissing => 3
  | indexInvalid => 4
  | generation => 5
  | timeout => 6
  | system => 99

/-- All outcomes. -/
def all : List Outcome :=
  [success, general, configInvalid, configMissing, indexInvalid, generation, timeout, system]

/-- The outcome of an exit code; an unknown code is a general error. -/
def ofCode (code : Int) : Outcome :=
  (all.find? fun o => (o.code : Int) == code).getD general

/-- The name in records. -/
def name : Outcome → String
  | success => "SUCCESS"
  | general => "ERR_GENERAL"
  | configInvalid => "ERR_CONFIG_INVALID"
  | configMissing => "ERR_CONFIG_MISSING"
  | indexInvalid => "ERR_INDEX_INVALID"
  | generation => "ERR_GENERATION"
  | timeout => "ERR_TIMEOUT"
  | system => "ERR_SYSTEM"

/-- Read a name. -/
def parse (s : String) : Except Failure Outcome :=
  match all.find? fun o => o.name == Text.trimmed s with
  | some o => .ok o
  | none => .error (.validation s!"unknown generation result '{s}'")

end Outcome

end BomAssembly
