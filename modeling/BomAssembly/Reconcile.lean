import BomAssembly.Bom.Basic
import BomAssembly.Coordinate.Similarity
import BomAssembly.Manifest.Basic

/-!
# Reconciling a bill of materials with a manifest

A generated bill of materials may miss what was declared. Every declared coordinate that no component
matches exactly gets a copy of the most similar component, under the declared coordinate, which the
root then depends on.

* Components are only added, behind those that were there.
* Only generated components are copied, never copies. The most similar one is the earliest of those
  with the greatest score.
* A declared coordinate counts as present once it was added.
* A declared coordinate of an artifact that no component is of is skipped.
* When there are as many components as declared coordinates, nothing is looked at.
-/

namespace BomAssembly.Reconcile

/-- A component that was added. -/
structure Addition where
  /-- The declared coordinate. -/
  declared : String
  /-- What the copied component goes by. -/
  source : String
  score : Nat
  deriving DecidableEq, Inhabited

/-- A declared coordinate that nothing could be added for. -/
structure Skip where
  declared : String
  reason : String
  deriving DecidableEq, Inhabited

/-- What a pass did. -/
structure Report where
  declared : Nat
  componentsBefore : Nat
  componentsAfter : Nat
  matched : Nat
  added : List Addition
  skipped : List Skip
  /-- The counts agreed, and nothing was looked at. -/
  fastPath : Bool
  deriving DecidableEq, Inhabited

/-- Whether the pass changed anything. -/
def Report.changed (r : Report) : Bool := !r.added.isEmpty

/-- The components that may be copied, each with its coordinate. -/
def candidates (b : Bom) : List (Component × Coordinate) :=
  b.components.filterMap fun c => c.coordinate.map fun k => (c, k)

/-- The better of the best so far and a candidate; the earlier one when they are equal. -/
def better (declared : Coordinate) (best : Option (Component × Nat))
    (candidate : Component × Coordinate) : Option (Component × Nat) :=
  match declared.similarity candidate.2, best with
  | none, best => best
  | some score, none => some (candidate.1, score)
  | some score, some (c, s) => if s < score then some (candidate.1, score) else some (c, s)

/-- The most similar candidate, with its score. -/
def bestCandidate (declared : Coordinate) (cs : List (Component × Coordinate)) :
    Option (Component × Nat) :=
  cs.foldl (better declared) none

/-- A bill of materials with one more component, which has an entry and which the root depends on. -/
def addComponent (b : Bom) (component : Component) (ref : String) (root : Option String) : Bom :=
  let b := { b with components := b.components ++ [component] }.ensureEntry ref
  match root with
  | some r => b.addEdge r ref
  | none => b

/-- Where a pass stands. -/
structure Pass where
  bom : Bom
  /-- The coordinates that are there, generated or added. -/
  present : List Coordinate
  matched : Nat
  added : List Addition
  skipped : List Skip

/-- Where a pass over a bill of materials starts. -/
def Pass.start (b : Bom) : Pass := ⟨b, (candidates b).map Prod.snd, 0, [], []⟩

/-- What a component goes by in a report. -/
def sourceName (c : Component) : String := c.reference.getD c.name

/-- Why a declared coordinate is skipped. -/
def noCandidate : String := "no eligible component"

/-- One declared coordinate. -/
def Pass.step (generated : Bom) (p : Pass) (declared : Coordinate) : Pass :=
  if p.present.any fun k => decide (k.MatchesExactly declared) then
    { p with matched := p.matched + 1 }
  else
    match bestCandidate declared (candidates generated) with
    | none => { p with skipped := p.skipped ++ [⟨declared.render, noCandidate⟩] }
    | some (source, score) =>
      { p with
        bom := addComponent p.bom (source.cloneAs declared) declared.render generated.rootRef
        present := p.present ++ [declared]
        added := p.added ++ [⟨declared.render, sourceName source, score⟩] }

/-- The pass over all declared coordinates. -/
def run (m : Manifest) (b : Bom) : Pass := m.dependencies.foldl (Pass.step b) (Pass.start b)

/-- A bill of materials with what the manifest declares, and what was done for it. -/
def reconcile (m : Manifest) (b : Bom) : Bom × Report :=
  if m.size = b.components.length then
    (b, ⟨m.size, b.components.length, b.components.length, 0, [], [], true⟩)
  else
    let p := run m b
    (p.bom, ⟨m.size, b.components.length, p.bom.components.length, p.matched, p.added, p.skipped,
      false⟩)

end BomAssembly.Reconcile
