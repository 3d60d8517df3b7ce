import BomAssembly.Coordinate.Basic

/-!
# The order of coordinates

Coordinates are ordered part by part: ecosystem, group, name, version, qualifiers, subpath. An absent
part comes before a present one, texts are ordered by code point, and qualifiers as lists of pairs.
-/

namespace BomAssembly.Coordinate

/-- The order of two texts. -/
def compareText (a b : String) : Ordering :=
  if a < b then .lt else if a = b then .eq else .gt

/-- An absent part comes first. -/
def comparePart : Option String → Option String → Ordering
  | none, none => .eq
  | none, some _ => .lt
  | some _, none => .gt
  | some a, some b => compareText a b

/-- The order of two lists of pairs. -/
def comparePairs : List (String × String) → List (String × String) → Ordering
  | [], [] => .eq
  | [], _ :: _ => .lt
  | _ :: _, [] => .gt
  | a :: as, b :: bs =>
    (compareText a.1 b.1).then ((compareText a.2 b.2).then (comparePairs as bs))

/-- The order of two coordinates. -/
def compare (a b : Coordinate) : Ordering :=
  (compareText a.ecosystem b.ecosystem).then <|
  (comparePart a.group b.group).then <|
  (compareText a.name b.name).then <|
  (comparePart a.version b.version).then <|
  (comparePairs a.qualifiers.entries b.qualifiers.entries).then <|
  comparePart a.subpath b.subpath

/-- Coordinates from least to greatest. -/
def sort (cs : List Coordinate) : List Coordinate :=
  cs.mergeSort fun a b => (compare a b).isLE

end BomAssembly.Coordinate
