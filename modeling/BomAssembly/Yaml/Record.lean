import BomAssembly.Yaml.Value

/-!
# Records in YAML values

How a mapping becomes a record. A key is the name of a field or its place among the fields; other
names and places are passed over, other keys refused, and no field may be written twice. A sequence
gives the fields in order. Values with tags of the writer's own have no place in a record.
-/

namespace BomAssembly.Yaml

namespace Value

mutual

/-- Whether a tag of the writer's own stands somewhere in a value. -/
def hasTag : Value → Bool
  | tagged .. => true
  | seq vs => anyTag vs
  | map es => anyEntryTag es
  | _ => false

/-- `hasTag` for some item. -/
def anyTag : List Value → Bool
  | [] => false
  | v :: vs => hasTag v || anyTag vs

/-- `hasTag` for some key or value. -/
def anyEntryTag : List (Value × Value) → Bool
  | [] => false
  | (k, v) :: es => hasTag k || hasTag v || anyEntryTag es

end

/-- The value without the tags around it. -/
def untagged : Value → Value
  | tagged _ v => untagged v
  | v => v

/-- Which field a key means, if any; nothing for a key that cannot mean one. -/
def fieldOf (names : List String) : Value → Option (Option String)
  | str s => some (if s ∈ names then some s else none)
  | int i => if 0 ≤ i then some names[i.toNat]? else none
  | _ => none

/-- The fields of a record, each once. -/
def record? (names : List String) : Value → Option (List (String × Value))
  | map es => do
    let fields ← es.mapM fun (k, v) => (fieldOf names k).map fun f => f.map fun n => (n, v)
    let fields := fields.filterMap id
    if (fields.map Prod.fst).Nodup then some fields else none
  | seq vs => if vs.length ≤ names.length then some (names.zip vs) else none
  | _ => none

/-- A text. -/
def string? : Value → Option String
  | str s => some s
  | _ => none

/-- A text, or nothing. -/
def stringOrNull? : Value → Option (Option String)
  | null => some none
  | str s => some (some s)
  | _ => none

/-- A sequence. -/
def list? {α : Type} (read : Value → Option α) : Value → Option (List α)
  | seq vs => vs.mapM read
  | _ => none

end Value

/-- A field that has to be written. -/
def required {α : Type} (read : Value → Option α) (name : String)
    (fields : List (String × Value)) : Option α :=
  (fields.lookup name).bind read

/-- A field with a value for when it is not written. -/
def defaulted {α : Type} (value : α) (read : Value → Option α) (name : String)
    (fields : List (String × Value)) : Option α :=
  match fields.lookup name with
  | some v => read v
  | none => some value

end BomAssembly.Yaml
