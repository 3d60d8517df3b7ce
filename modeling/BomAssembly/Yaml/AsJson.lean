import BomAssembly.Json.Value
import BomAssembly.Yaml.Writer

/-!
# Written values as JSON

What is written as YAML can be written as JSON as well.
-/

namespace BomAssembly.Yaml

mutual

/-- The same value in JSON. -/
def Data.toJson : Data → Json
  | .null => .null
  | .bool b => .bool b
  | .int i => .int i
  | .str s => .str s
  | .seq ds => .arr (itemsToJson ds)
  | .map es => .obj (entriesToJson es)

/-- The items of a sequence in JSON. -/
def itemsToJson : List Data → List Json
  | [] => []
  | d :: ds => d.toJson :: itemsToJson ds

/-- The entries of a mapping in JSON. -/
def entriesToJson : List (String × Data) → List (String × Json)
  | [] => []
  | (k, d) :: es => (k, d.toJson) :: entriesToJson es

end

end BomAssembly.Yaml
