import BomAssembly.Coordinate.Basic
import BomAssembly.Text.Split

/-!
# How close two coordinates are

Only coordinates of the same artifact are comparable. Among those the score counts how many leading
version segments agree: the first is worth 3, the second 2 and the third 1, and a segment counts only
if all before it agreed. An empty segment and an absent one agree with nothing.
-/

namespace BomAssembly.Coordinate

/-- What each leading segment is worth. -/
def segmentWeights : List Nat := [3, 2, 1]

/-- The worth of the leading segments that agree. -/
def agreement : List Nat → List (List Char) → List (List Char) → Nat
  | w :: ws, a :: as, b :: bs =>
    if a ≠ [] ∧ a = b then w + agreement ws as bs else 0
  | _, _, _ => 0

/-- How far two versions agree, from 0 to 6. -/
def versionSimilarity : Option String → Option String → Nat
  | some a, some b =>
    agreement segmentWeights (Text.pieces '.' a.toList) (Text.pieces '.' b.toList)
  | _, _ => 0

/-- The score of a candidate for a declared coordinate; none when it is of another artifact. -/
def similarity (declared candidate : Coordinate) : Option Nat :=
  if SameArtifact declared candidate then
    some (versionSimilarity declared.version candidate.version)
  else none

end BomAssembly.Coordinate
