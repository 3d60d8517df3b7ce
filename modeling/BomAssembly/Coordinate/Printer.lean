import BomAssembly.Coordinate.Basic
import BomAssembly.Text.Percent
import BomAssembly.Text.Split

/-!
# The text of a coordinate

A coordinate is written as a package URL:
`pkg:ecosystem/group/name@version?key=value&key=value#subpath`. Every part but the ecosystem and the
qualifier keys is percent-encoded; the slashes between the segments of a group and of a subpath stay,
and a qualifier value keeps its colons and slashes too. Qualifiers come in key order.
-/

namespace BomAssembly.Coordinate

open Text

/-- No character is kept beyond the plain ones. -/
def keepNone : Char → Bool := fun _ => false

/-- A slash is kept. -/
def keepSlash : Char → Bool := (· == '/')

/-- A slash and a colon are kept. -/
def keepSlashColon : Char → Bool := fun c => c == ':' || c == '/'

/-- One qualifier. -/
def renderQualifier (q : String × String) : List Char :=
  q.1.toList ++ ['='] ++ Percent.encode keepSlashColon q.2.toList

/-- The characters of a coordinate's text. -/
def renderChars (c : Coordinate) : List Char :=
  "pkg:".toList ++ c.ecosystem.toList ++ ['/'] ++
  (match c.group with
    | some g => joined ['/'] ((pieces '/' g.toList).map (Percent.encode keepNone)) ++ ['/']
    | none => []) ++
  Percent.encode keepNone c.name.toList ++
  (match c.version with
    | some v => '@' :: Percent.encode keepNone v.toList
    | none => []) ++
  (match c.qualifiers.entries with
    | [] => []
    | qs => '?' :: joined ['&'] (qs.map renderQualifier)) ++
  (match c.subpath with
    | some s => '#' :: Percent.encode keepSlash s.toList
    | none => [])

/-- The text of a coordinate. -/
def render (c : Coordinate) : String := String.ofList c.renderChars

end BomAssembly.Coordinate
