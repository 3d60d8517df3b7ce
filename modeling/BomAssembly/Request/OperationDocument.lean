import BomAssembly.Request.ConfigDocument
import BomAssembly.Yaml.Typed

/-!
# Configurations of operations, read on their own

Inside a job run the configuration of its operation is a document of its own. Its kind is known, so
that the tag says nothing, and a scalar where a text is wanted is taken as it is written.
-/

namespace BomAssembly

open Yaml (Document Node fieldOr)

namespace Generator

/-- Read a generator. -/
def ofNode? (d : Document) (n : Node) : Option Generator := do
  let fs ← d.record? fieldNames n
  some {
    tool := ← fieldOr standard.tool d.text? "type" fs
    version := ← fieldOr none d.textOrNull? "version" fs
    args := ← fieldOr none d.textOrNull? "args" fs }

end Generator

/-- Read a product. -/
def Product.ofNode? (d : Document) (n : Node) : Option Product := do
  let fs ← d.record? ["generator"] n
  some { generator := ← fieldOr .standard (Generator.ofNode? d) "generator" fs }

namespace Deliverable

/-- Read an index; a scalar means here what it means anywhere. -/
def indexOfNode? (d : Document) (n : Node) : Option Nat :=
  match d.target n with
  | some (.scalar tag style text) => (Yaml.Value.ofScalar? tag style text).bind index?
  | _ => none

/-- Read a deliverable. -/
def ofNode? (d : Document) (n : Node) : Option Deliverable := do
  let fs ← d.record? ["index", "url", "pom"] n
  some {
    index := ← (fs.lookup "index").bind (indexOfNode? d)
    url := ← (fs.lookup "url").bind d.text?
    pom := ← fieldOr none d.textOrNull? "pom" fs }

end Deliverable

namespace OperationConfig

/-- Read the configuration of an operation. -/
def ofDocument? (d : Document) : Option OperationConfig := do
  let fs ← d.record? ["operationId", "product", "deliverables"] d.top
  some {
    operationId := ← (fs.lookup "operationId").bind d.text?
    product := ← fieldOr .standard (Product.ofNode? d) "product" fs
    deliverables := ← fieldOr []
      (fun n => do (← d.items? n).mapM (Deliverable.ofNode? d)) "deliverables" fs }

/-- Read the configuration of an operation from a text. -/
def parse? (text : String) : Option OperationConfig := (Document.parse? text).bind ofDocument?

end OperationConfig

end BomAssembly
