import BomAssembly.Number.Binary64

/-!
# JSON values

A value as it is held after reading: the fields of an object keep the order in which their names
first appeared. A number without fraction and exponent is an integer of at most 64 bits, every other
one a binary64 number.
-/

namespace BomAssembly

/-- A number in a JSON text. -/
inductive JsonNumber where
  | int (value : Int)
  | float (value : Number.Binary64)
  deriving DecidableEq, Inhabited

/-- A JSON value. -/
inductive Json where
  | null
  | bool (value : Bool)
  | num (value : JsonNumber)
  | str (value : String)
  | arr (items : List Json)
  | obj (fields : List (String × Json))
  deriving Inhabited

namespace Json

/-- An integer. -/
def int (i : Int) : Json := .num (.int i)

/-- A natural number. -/
def nat (n : Nat) : Json := .num (.int n)

/-- Put a field into an object: in place of the field of that name, else behind all others. -/
def putField {α : Type} (name : String) (value : α) : List (String × α) → List (String × α)
  | [] => [(name, value)]
  | (n, v) :: rest =>
    if n = name then (name, value) :: rest else (n, v) :: putField name value rest

/-- The fields in turn, a later one replacing an earlier one of its name. -/
def mergeFields {α : Type} (fields : List (String × α)) : List (String × α) :=
  fields.foldl (fun acc f => putField f.1 f.2 acc) []

end Json

end BomAssembly
