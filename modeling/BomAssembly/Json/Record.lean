import BomAssembly.Json.Reader

/-!
# Records in JSON

How the fields of an object become a record. A field may go by several names, but may be written only
once. A field is required, or has a default when it is not written, or is optional, and then `null`
counts as not written. What no field of the record takes is left over, in the order written.
-/

namespace BomAssembly.Json

/-- The fields of an object as written. -/
abbrev Fields := List (String × Json)

/-- The fields of an object. -/
def fields? : Json → Option Fields
  | .obj fs => some fs
  | _ => none

/-- The fields of a record with these names: those of an object, or the items of an array in order. -/
def recordFields? (names : List String) : Json → Option Fields
  | .obj fs => some fs
  | .arr vs => if vs.length ≤ names.length then some (names.zip vs) else none
  | _ => none

/-- The field that goes by one of the names; nothing when it is written twice. -/
def once (names : List String) (fs : Fields) : Option (Option Json) :=
  match fs.filter fun f => f.1 ∈ names with
  | [] => some none
  | [f] => some (some f.2)
  | _ => none

section

variable {α : Type}

/-- A field that has to be written. -/
def required (read : Json → Option α) (names : List String) (fs : Fields) : Option α :=
  match once names fs with
  | some (some v) => read v
  | _ => none

/-- A field with a value for when it is not written. -/
def defaulted (value : α) (read : Json → Option α) (names : List String) (fs : Fields) :
    Option α :=
  match once names fs with
  | some (some v) => read v
  | some none => some value
  | none => none

/-- A value that may be `null`. -/
def nullable (read : Json → Option α) : Json → Option (Option α)
  | .null => some none
  | v => (read v).map some

/-- A field that may be missing or `null`. -/
def optional (read : Json → Option α) (names : List String) (fs : Fields) : Option (Option α) :=
  defaulted none (nullable read) names fs

/-- An array. -/
def list? (read : Json → Option α) : Json → Option (List α)
  | .arr vs => vs.mapM read
  | _ => none

/-- A value, or `null` when there is none. -/
def orNull (write : α → Json) : Option α → Json
  | some a => write a
  | none => .null

/-- An optional field of an object that is written only when it is there. -/
def field (name : String) (write : α → Json) : Option α → Fields
  | some a => [(name, write a)]
  | none => []

end

/-- An object whose values are strings; of two with one name the last counts. -/
def texts? : Json → Option (List (String × String))
  | .obj fs => fs.mapM fun (k, v) =>
    match v with
    | .str s => some (k, s)
    | _ => none
  | _ => none

/-- A string. -/
def string? : Json → Option String
  | .str s => some s
  | _ => none

/-- A natural number below a bound. -/
def natBelow? (bound : Nat) : Json → Option Nat
  | .num (.int i) => if 0 ≤ i ∧ i < bound then some i.toNat else none
  | _ => none

/-- An integer between two bounds. -/
def intBetween? (low high : Int) : Json → Option Int
  | .num (.int i) => if low ≤ i ∧ i ≤ high then some i else none
  | _ => none

/-- The fields that none of the names takes, each once. -/
def leftOver (names : List String) (fs : Fields) : Fields :=
  mergeFields ((fs.filter fun f => f.1 ∉ names).map fun f => (f.1, merged f.2))

end BomAssembly.Json
