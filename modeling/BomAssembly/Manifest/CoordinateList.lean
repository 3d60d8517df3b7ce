import BomAssembly.Confidence
import BomAssembly.Coordinate.Reader
import BomAssembly.Failure
import BomAssembly.Json.Record
import BomAssembly.Manifest.Basic
import BomAssembly.Text.Blank

/-!
# Manifests as JSON lists

A list of entries, or an object with such a list under `dependencies` and possibly an entry under
`root`. An entry is a package URL, or the parts of a Maven coordinate: an object with `group` and
`name` (also called `groupId` and `artifactId`) and optionally `version`, `type` and `classifier`, or
an array of these parts in this order.
-/

namespace BomAssembly.Manifest

open Json (Fields once required optional string? nullable)

/-- An entry of a list. -/
inductive Entry where
  | purl (text : String)
  | parts (group name : String) (version packaging classifier : Option String)
  deriving DecidableEq

namespace Entry

/-- A part that may be missing at the end of an array. -/
def trailing? : Option Json → Option (Option String)
  | none => some none
  | some v => nullable string? v

/-- Read an entry. -/
def ofJson? : Json → Option Entry
  | .str s => some (.purl s)
  | .obj fs => do
    return .parts (← required string? ["group", "groupId"] fs)
      (← required string? ["name", "artifactId"] fs) (← optional string? ["version"] fs)
      (← optional string? ["type"] fs) (← optional string? ["classifier"] fs)
  | .arr (group :: name :: rest) => do
    if rest.length > 3 then none
    else
      return .parts (← string? group) (← string? name) (← trailing? rest[0]?) (← trailing? rest[1]?)
        (← trailing? rest[2]?)
  | _ => none

/-- The coordinate of the entry at a position. -/
def coordinate (position : Nat) : Entry → Except DocumentError Coordinate
  | purl text =>
    match Coordinate.parse text with
    | .ok c => .ok c
    | .error e =>
      let failure := (Failure.invalidPurl text e.message).message
      .error (.malformed s!"entry {position}: {failure}")
  | parts group name version packaging classifier =>
    .ok (Coordinate.maven group name version packaging classifier)

/-- The coordinates of entries, the first of which stands at a position. -/
def coordinatesFrom (position : Nat) : List Entry → Except DocumentError (List Coordinate)
  | [] => .ok []
  | e :: es => do
    let c ← e.coordinate position
    let cs ← coordinatesFrom (position + 1) es
    return c :: cs

end Entry

/-- The root entry and the entries of a document. -/
def entries? : Json → Option (Option Entry × List Entry)
  | .arr vs => (vs.mapM Entry.ofJson?).map fun es => (none, es)
  | .obj fs => do
    let root ← optional Entry.ofJson? ["root"] fs
    let es ← required (Json.list? Entry.ofJson?) ["dependencies"] fs
    return (root, es)
  | _ => none

/-- Read a JSON list. -/
def parseList (content : String) : Except DocumentError Manifest :=
  match (Json.readWritten .any content).bind entries? with
  | none => .error (.json "not a list of coordinates")
  | some (root, es) => do
    let root ← root.mapM (Entry.coordinate 0)
    let dependencies ← Entry.coordinatesFrom 0 es
    return { root, dependencies }

/-- How likely a text is a JSON list. -/
def listConfidence (content : String) : Confidence :=
  let trimmed := Text.trimStart content.toList
  let has (part : String) : Bool := Text.occurs part.toList trimmed
  match trimmed with
  | '[' :: _ => if has "pkg:" || has "\"group" then .high else .low
  | '\x7b' :: _ => if has "\"dependencies\"" && !has "bomFormat" then .medium else .none
  | _ => .none

end BomAssembly.Manifest
