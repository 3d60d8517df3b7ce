import BomAssembly.Yaml.Value

/-!
# Reading known fields from a YAML document

A reader that knows what stands where takes a scalar as the text that is written, whatever it would
mean elsewhere. A collection may be left empty by writing nothing. Of two entries with one key, a
record takes neither, and a map takes the last.
-/

namespace BomAssembly.Yaml

namespace Document

/-- The node itself, or the one an alias means. -/
def target (d : Document) : Node → Option Node
  | .alias n => d.lookup n
  | node => some node

/-- The node at the top; an empty stream has an empty one. -/
def top (d : Document) : Node := d.root.getD .empty

/-- The text of a scalar. -/
def text? (d : Document) (n : Node) : Option String :=
  match d.target n with
  | some (.scalar _ _ s) => some s
  | _ => none

/-- The text of a scalar, or none where nothing is written. -/
def textOrNull? (d : Document) (n : Node) : Option (Option String) :=
  match d.target n with
  | some (.scalar none .plain s) =>
    if s == "" || isNullWord s then some none else some (some s)
  | some (.scalar (some "tag:yaml.org,2002:null") .plain s) =>
    if isNullWord s then some none else none
  | some (.scalar _ _ s) => some (some s)
  | _ => none

/-- The entries of a mapping. -/
def entries? (d : Document) (n : Node) : Option (List (Node × Node)) :=
  match d.target n with
  | some (.mapping _ es) => some es
  | some (.scalar _ .plain "") => some []
  | _ => none

/-- The items of a sequence. -/
def items? (d : Document) (n : Node) : Option (List Node) :=
  match d.target n with
  | some (.sequence _ vs) => some vs
  | some (.scalar _ .plain "") => some []
  | _ => none

/-- The texts of a sequence. -/
def texts? (d : Document) (n : Node) : Option (List String) := do
  (← d.items? n).mapM d.text?

/-- The entries of a mapping from texts to texts. -/
def textEntries? (d : Document) (n : Node) : Option (List (String × String)) := do
  (← d.entries? n).mapM fun (k, v) => return (← d.text? k, ← d.text? v)

/-- The fields of a record that have one of the names, each once. -/
def record? (d : Document) (names : List String) (n : Node) : Option (List (String × Node)) := do
  let fields ← (← d.entries? n).mapM fun (k, v) => return (← d.text? k, v)
  let fields := fields.filter fun f => f.1 ∈ names
  if (fields.map Prod.fst).Nodup then some fields else none

/-- A word, written as a text or as a tag in front of nothing. -/
def word? (d : Document) (n : Node) : Option String :=
  match d.target n with
  | some (.scalar tag style s) =>
    match ownTag? tag with
    | some t => if style == .plain && (s == "" || isNullWord s) then some t else none
    | none => some s
  | _ => none

end Document

/-- A field with a value for when it is not written. -/
def fieldOr {α : Type} (value : α) (read : Node → Option α) (name : String)
    (fields : List (String × Node)) : Option α :=
  match fields.lookup name with
  | some n => read n
  | none => some value

end BomAssembly.Yaml
