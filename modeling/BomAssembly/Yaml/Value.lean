import BomAssembly.Yaml.Node
import BomAssembly.Yaml.PlainValue

/-!
# Values of a YAML document

A document read without knowing what it holds: aliases are replaced by what they mean, plain scalars
get their type, and a node with a tag of the writer's own keeps it. Collections may be nested 128
deep; aliases may be followed a hundred times as often as the document has steps. The keys of a
mapping are all different.
-/

namespace BomAssembly.Yaml

/-- A value. -/
inductive Value where
  | null
  | bool (value : Bool)
  | int (value : Int)
  | float (value : Float)
  | str (value : String)
  | seq (items : List Value)
  | map (entries : List (Value × Value))
  | tagged (tag : String) (value : Value)
  deriving Inhabited

namespace Value

mutual

/-- Whether two values are one. -/
def same : Value → Value → Bool
  | null, null => true
  | bool a, bool b => a == b
  | int a, int b => a == b
  | float a, float b => a.same b
  | str a, str b => a == b
  | seq a, seq b => sameItems a b
  | map a, map b => a.length == b.length && sameEntries a b
  | tagged s a, tagged t b => s == t && same a b
  | _, _ => false

/-- Whether two sequences are one. -/
def sameItems : List Value → List Value → Bool
  | [], [] => true
  | a :: as, b :: bs => same a b && sameItems as bs
  | _, _ => false

/-- Whether each entry of a mapping is one of another mapping. -/
def sameEntries : List (Value × Value) → List (Value × Value) → Bool
  | [], _ => true
  | (k, v) :: rest, other => sameIn k v other && sameEntries rest other

/-- Whether an entry is one of a mapping. -/
def sameIn (k v : Value) : List (Value × Value) → Bool
  | [] => false
  | (k', v') :: rest => (same k k' && same v v') || sameIn k v rest

end

/-- The text of a mapping's key, unless it is no text. -/
def text? : Value → Option String
  | str s => some s
  | _ => none

end Value

/-- The tag of the writer's own, without its exclamation mark. -/
def ownTag? (tag : Option String) : Option String :=
  tag.bind fun t => if t.startsWith "!" then some (t.drop 1).toString else none

/-- The value of a plain scalar. -/
def Value.ofPlain? (text : String) : Option Value :=
  match plainValue text with
  | .null => some .null
  | .bool b => some (.bool b)
  | .int i => some (.int i)
  | .wide _ => none
  | .float x => some (.float x)
  | .text => some (.str text)

/-- The value of a scalar whose tag is not of the writer's own. -/
def Value.ofScalar? (tag : Option String) (style : Style) (text : String) : Option Value :=
  match tag with
  | none => if style == .plain then ofPlain? text else some (.str text)
  | some "tag:yaml.org,2002:bool" => (boolWord? text).map .bool
  | some "tag:yaml.org,2002:int" =>
    (integer? text.toList).bind fun i => if fits 64 i then some (.int i) else none
  | some "tag:yaml.org,2002:float" => (float? text).map .float
  | some "tag:yaml.org,2002:null" => if isNullWord text then some .null else none
  | some _ => some (.str text)

/-- One more alias is followed, if that is still allowed. -/
def countJump (limit : Nat) : StateT Nat Option Unit := fun jumps =>
  if jumps + 1 > limit then none else some ((), jumps + 1)

/-- The node itself, or the one an alias means. -/
def Document.follow (d : Document) (limit : Nat) : Node → StateT Nat Option Node
  | .alias n => do
    countJump limit
    match d.lookup n with
    | some node => pure node
    | none => failure
  | node => pure node

/-- Put an entry behind others, if its key is new. -/
def addEntry (entries : List (Value × Value)) (k v : Value) : Option (List (Value × Value)) :=
  if entries.any fun e => e.1.same k then none else some (entries ++ [(k, v)])

/-- A tag put on a value, if the node has one of the writer's own; it must not be empty. -/
def withTag (tag : Option String) (v : Value) : Option Value :=
  match ownTag? tag with
  | none => some v
  | some "" => none
  | some t => some (.tagged t v)

/-- The value of a scalar, whatever its tag. -/
def scalarValue? (tag : Option String) (style : Style) (text : String) : Option Value :=
  (Value.ofScalar? (if (ownTag? tag).isSome then none else tag) style text).bind (withTag tag)

/-- The value of a mapping of these entries, whose keys must all be different. -/
def mappingValue? (tag : Option String) (entries : List (Value × Value)) : Option Value :=
  (entries.foldlM (fun es (k, v) => addEntry es k v) []).bind fun es => withTag tag (.map es)

/-- The value of a node; collections may be nested `depth` deep in it. -/
def Document.resolve (d : Document) (limit : Nat) : Nat → Node → StateT Nat Option Value
  | 0, node => do
    match ← d.follow limit node with
    | .scalar tag style text => StateT.lift (scalarValue? tag style text)
    | _ => failure
  | depth + 1, node => do
    match ← d.follow limit node with
    | .scalar tag style text => StateT.lift (scalarValue? tag style text)
    | .sequence tag items =>
      let vs ← items.mapM (d.resolve limit depth)
      StateT.lift (withTag tag (.seq vs))
    | .mapping tag entries =>
      let vs ← entries.mapM fun (k, v) => do
        return (← d.resolve limit depth k, ← d.resolve limit depth v)
      StateT.lift (mappingValue? tag vs)
    | .alias _ => failure

/-- How deep collections may be nested. -/
def maxDepth : Nat := 128

/-- How often aliases may be followed. -/
def Document.jumpLimit (d : Document) : Nat :=
  match d.root with
  | some n => 100 * n.steps
  | none => 100

/-- The value of a document; an empty one is nothing. -/
def Document.value? (d : Document) : Option Value :=
  match d.root with
  | none => some .null
  | some n => (d.resolve d.jumpLimit maxDepth n 0).map Prod.fst

/-- The value of a stream. -/
def Value.parse? (text : String) : Option Value := (Document.parse? text).bind Document.value?

end BomAssembly.Yaml
