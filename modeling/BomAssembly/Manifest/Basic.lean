import BomAssembly.Coordinate.Basic

/-!
# Manifests

A manifest lists what a deliverable declares to depend on, in the order declared, and may name the
deliverable itself. One coordinate may be declared more than once.
-/

namespace BomAssembly

/-- What a deliverable declares. -/
structure Manifest where
  root : Option Coordinate
  dependencies : List Coordinate
  deriving DecidableEq, Inhabited

namespace Manifest

/-- The number of declared dependencies. -/
def size (m : Manifest) : Nat := m.dependencies.length

/-- Whether nothing is declared. -/
def isEmpty (m : Manifest) : Bool := m.dependencies.isEmpty

end Manifest

end BomAssembly
