import BomAssembly.Request.Lifecycle

/-!
# Configurations of requests

What a request is to generate. A build has products; an operation has one product and a list of
deliverables, each with an index of its own. A configuration has to be of the request's kind and name
the request's build or operation, unless it names none.
-/

namespace BomAssembly

/-- The tool that generates a product's BOM. -/
structure Generator where
  tool : String
  version : Option String
  args : Option String
  deriving DecidableEq, Inhabited

/-- The generator where none is written. -/
def Generator.standard : Generator := ⟨"cyclonedx-operation", none, none⟩

/-- How a product's BOM is generated. -/
structure Product where
  generator : Generator
  deriving DecidableEq, Inhabited

/-- The product where none is written. -/
def Product.standard : Product := ⟨.standard⟩

/-- An archive that an operation delivers. -/
structure Deliverable where
  /-- The index it was declared with, below 2^32. -/
  index : Nat
  url : String
  /-- Where its manifest is, once it is prepared. -/
  pom : Option String
  deriving DecidableEq, Inhabited

/-- Whether the manifest is prepared. -/
def Deliverable.HasPom (d : Deliverable) : Prop := ∃ p, d.pom = some p ∧ Text.allBlank p = false

instance (d : Deliverable) : Decidable d.HasPom :=
  match h : d.pom with
  | none => .isFalse fun ⟨_, hp, _⟩ => by simp [h] at hp
  | some p =>
    if hb : Text.allBlank p = false then .isTrue ⟨p, h, hb⟩
    else .isFalse fun ⟨q, hq, hqb⟩ => by
      rw [h] at hq
      cases hq
      exact hb hqb

/-- The configuration of a build. -/
structure BuildConfig where
  buildId : String
  products : List Product
  deriving DecidableEq, Inhabited

/-- The configuration of an operation. -/
structure OperationConfig where
  operationId : String
  product : Product
  deliverables : List Deliverable
  deriving DecidableEq, Inhabited

/-- The configuration of a request. -/
inductive Config where
  | build (config : BuildConfig)
  | operation (config : OperationConfig)
  deriving DecidableEq, Inhabited

namespace Config

/-- What kind of request it is for. -/
def kind : Config → Kind
  | build _ => .build
  | operation _ => .operation

/-- The build or operation it names. -/
def correlationId : Config → String
  | build c => c.buildId
  | operation c => c.operationId

/-- The first index that an earlier deliverable has too. -/
def repeatedIndex? : List Nat → List Deliverable → Option Nat
  | _, [] => none
  | seen, d :: rest =>
    if d.index ∈ seen then some d.index else repeatedIndex? (d.index :: seen) rest

/-- Check that a configuration fits its request. -/
def check (kind : Kind) (correlationId : String) (c : Config) : Except Failure Unit :=
  if c.kind ≠ kind then
    .error (.configuration s!"{c.kind.name} configuration supplied for a {kind.name} request")
  else if c.correlationId ≠ "" ∧ c.correlationId ≠ correlationId then
    .error (.configuration
      s!"configuration refers to '{c.correlationId}' but the request is for '{correlationId}'")
  else
    match c with
    | build _ => .ok ()
    | operation o =>
      match repeatedIndex? [] o.deliverables with
      | some i => .error (.configuration s!"duplicate deliverable index {i}")
      | none => .ok ()

end Config

end BomAssembly
