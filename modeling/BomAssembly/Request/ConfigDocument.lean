import BomAssembly.Request.Config
import BomAssembly.Yaml.Record
import BomAssembly.Yaml.Writer

/-!
# Configurations as documents

A configuration is a YAML document, and so may be JSON: a mapping whose tag `type` says what it is
for. Without a tag it is taken to be for the request at hand. The index of a deliverable is a number
or a text that holds one.
-/

namespace BomAssembly

open Yaml (Value Data)

/-! ## Reading -/

namespace Generator

/-- The names of the fields. -/
def fieldNames : List String := ["type", "version", "args"]

/-- Read a generator. -/
def ofValue? (v : Value) : Option Generator := do
  let fs ← v.record? fieldNames
  some {
    tool := ← Yaml.defaulted standard.tool Value.string? "type" fs
    version := ← Yaml.defaulted none Value.stringOrNull? "version" fs
    args := ← Yaml.defaulted none Value.stringOrNull? "args" fs }

end Generator

/-- Read a product. -/
def Product.ofValue? (v : Value) : Option Product := do
  let fs ← v.record? ["generator"]
  some { generator := ← Yaml.defaulted .standard Generator.ofValue? "generator" fs }

namespace Deliverable

/-- Read an index. -/
def index? : Value → Option Nat
  | .int i => if 0 ≤ i ∧ i < Nat.pow 2 32 then some i.toNat else none
  | .str s => Number.naturalBelow? (Nat.pow 2 32) (Text.trim s.toList)
  | _ => none

/-- Read a deliverable. -/
def ofValue? (v : Value) : Option Deliverable := do
  let fs ← v.record? ["index", "url", "pom"]
  some {
    index := ← Yaml.required index? "index" fs
    url := ← Yaml.required Value.string? "url" fs
    pom := ← Yaml.defaulted none Value.stringOrNull? "pom" fs }

end Deliverable

/-- Read the configuration of a build. -/
def BuildConfig.ofValue? (v : Value) : Option BuildConfig := do
  let fs ← v.record? ["buildId", "products"]
  some {
    buildId := ← Yaml.required Value.string? "buildId" fs
    products := ← Yaml.defaulted [] (Value.list? Product.ofValue?) "products" fs }

/-- Read the configuration of an operation. -/
def OperationConfig.ofValue? (v : Value) : Option OperationConfig := do
  let fs ← v.record? ["operationId", "product", "deliverables"]
  some {
    operationId := ← Yaml.required Value.string? "operationId" fs
    product := ← Yaml.defaulted .standard Product.ofValue? "product" fs
    deliverables := ← Yaml.defaulted [] (Value.list? Deliverable.ofValue?) "deliverables" fs }

namespace Config

/-- The name of the tag. -/
def tagName : String := "type"

/-- The tag among the entries of a mapping. -/
def tag? (entries : List (Value × Value)) : Option Value :=
  (entries.find? fun e => e.1.same (.str tagName)).map Prod.snd

/-- The entries without the tag. -/
def untaggedEntries (entries : List (Value × Value)) : List (Value × Value) :=
  entries.filter fun e => !e.1.same (.str tagName)

/-- Read a configuration with a tag. The tag itself may have tags of the writer's own, which mean
nothing; the rest may not. -/
def ofEntries? (entries : List (Value × Value)) : Option Config := do
  let tag ← (tag? entries).bind fun v => v.untagged.string?
  let body := Value.map (untaggedEntries entries)
  if body.hasTag then none
  else if tag = Kind.build.tag then (BuildConfig.ofValue? body).map build
  else if tag = Kind.operation.tag then (OperationConfig.ofValue? body).map operation
  else none

/-- The failure of a document that is no YAML. -/
def unparseable : Failure := .configuration "unparseable configuration: malformed document"

/-- The failure of a document that is no configuration. -/
def invalid : Failure := .configuration "invalid configuration: unexpected content"

/-- The configuration that a value holds, for a request of a kind. -/
def ofValue (kind : Kind) (v : Value) : Except Failure Config :=
  match v.untagged with
  | .map entries =>
    let entries :=
      if (tag? entries).isSome then entries
      else entries ++ [(.str tagName, .str kind.tag)]
    match v with
    | .tagged .. => .error invalid
    | _ =>
      match ofEntries? entries with
      | some c => .ok c
      | none => .error invalid
  | _ => .error (.configuration "configuration must be a mapping")

/-- Read the configuration of a request. -/
def parse (raw : String) (kind : Kind) (correlationId : String) : Except Failure Config := do
  match Value.parse? raw with
  | none => .error unparseable
  | some v =>
    let c ← ofValue kind v
    c.check kind correlationId
    return c

/-- Read a configuration that says itself what it is for. -/
def parseTagged? (raw : String) : Option Config :=
  (Value.parse? raw).bind fun v =>
    match v with
    | .map entries => ofEntries? entries
    | _ => none

end Config

/-! ## Writing -/

/-- A field that is written only when it is there. -/
def optionalField (name : String) : Option String → List (String × Data)
  | some s => [(name, .str s)]
  | none => []

/-- A generator as it is written. -/
def Generator.toData (g : Generator) : Data :=
  .map (("type", .str g.tool) :: optionalField "version" g.version ++ optionalField "args" g.args)

/-- A product as it is written. -/
def Product.toData (p : Product) : Data := .map [("generator", p.generator.toData)]

/-- A deliverable as it is written. -/
def Deliverable.toData (d : Deliverable) : Data :=
  .map (("index", .int d.index) :: ("url", .str d.url) :: optionalField "pom" d.pom)

namespace Config

/-- A configuration as it is written. -/
def toData : Config → Data
  | build c => .map [
      (tagName, .str Kind.build.tag),
      ("buildId", .str c.buildId),
      ("products", .seq (c.products.map Product.toData))]
  | operation c => .map [
      (tagName, .str Kind.operation.tag),
      ("operationId", .str c.operationId),
      ("product", c.product.toData),
      ("deliverables", .seq (c.deliverables.map Deliverable.toData))]

/-- A configuration as a document. -/
def render (c : Config) : String := c.toData.render

end Config

/-! ## What a request carries -/

/-- The configuration of a request as it was given. -/
inductive ConfigState where
  | missing
  | valid (config : Config)
  /-- A text that is no fitting configuration, and why. -/
  | invalid (raw error : String)
  deriving DecidableEq, Inhabited

namespace ConfigState

/-- The configuration, if there is a fitting one. -/
def config? : ConfigState → Option Config
  | valid c => some c
  | _ => none

/-- Read what was given. A blank text counts as none. -/
def ofRaw (raw : Option String) (kind : Kind) (correlationId : String) : ConfigState :=
  match raw.map Text.trimmed with
  | none => missing
  | some "" => missing
  | some raw =>
    match Config.parse raw kind correlationId with
    | .ok c => valid c
    | .error e => invalid raw e.message

end ConfigState

end BomAssembly
