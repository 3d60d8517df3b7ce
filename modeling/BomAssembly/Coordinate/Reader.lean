import BomAssembly.Coordinate.Basic
import BomAssembly.Text.LetterCase
import BomAssembly.Text.Percent
import BomAssembly.Text.Quoted
import BomAssembly.Text.Split

/-!
# Reading a coordinate

A package URL is cut from its ends inward: the scheme at the first colon, then the subpath at the
last `#`, the qualifiers at the last `?`, the version at the last `@`, the ecosystem at the first
slash, and the name at the last one. What is left in the middle is the group.

* Empty segments and the segments `.` and `..` of group and subpath are dropped.
* Percent escapes are decoded after cutting, and a decoded segment may not hold a slash.
* Some ecosystems ignore letter case; there names and groups are read in lower case.
-/

namespace BomAssembly.Coordinate

open Text

/-- Why a text is not a package URL. -/
inductive Malformed where
  | missingScheme
  | missingType
  | missingName
  | invalidScheme (found : String)
  | invalidType (found : String)
  | invalidKey (found : String)
  | invalidGroupSegment (found : String)
  | invalidSubpathSegment (found : String)
  | notUtf8
  deriving DecidableEq, Inhabited

/-- The reason in words. -/
def Malformed.message : Malformed → String
  | missingScheme => "missing scheme"
  | missingType => "missing type"
  | missingName => "missing name"
  | invalidScheme s => "invalid scheme: " ++ quoted s
  | invalidType s => "invalid type: " ++ quoted s
  | invalidKey s => "invalid key: " ++ quoted s
  | invalidGroupSegment s => "invalid namespace component: " ++ quoted s
  | invalidSubpathSegment s => "invalid subpath segment: " ++ quoted s
  | notUtf8 => "utf-8 decoding failed"

/-- Letters, digits, `.`, `+` and `-`, with no digit in front. -/
def validEcosystem (cs : List Char) : Bool :=
  match cs with
  | [] => false
  | c :: _ => !c.isDigit && cs.all fun c => c.isAlphanum || c == '.' || c == '+' || c == '-'

/-- Letters, digits, `.`, `-` and `_`, with no digit in front. -/
def validKey (cs : List Char) : Bool :=
  match cs with
  | [] => false
  | c :: _ => !c.isDigit && cs.all fun c => c.isAlphanum || c == '.' || c == '-' || c == '_'

/-- A segment that names something inside its parent. -/
def namesChild (segment : List Char) : Bool :=
  segment ≠ [] && segment ≠ ['.'] && segment ≠ ['.', '.']

/-- Decode the percent escapes of a part. -/
def decoded (cs : List Char) : Except Malformed (List Char) :=
  match Percent.decode? cs with
  | some t => .ok t
  | none => .error .notUtf8

/-- The segments that name something, decoded; each has to pass the check. -/
def segments (cs : List Char) (valid : List Char → Bool) (bad : String → Malformed) :
    Except Malformed (List (List Char)) :=
  ((pieces '/' cs).filter namesChild).mapM fun segment => do
    let text ← decoded segment
    if valid text then .ok text else .error (bad (String.ofList text))

/-- The group between ecosystem and name. -/
def readGroup (cs : List Char) : Except Malformed (List Char) := do
  let parts ← segments cs (fun t => !t.contains '/') .invalidGroupSegment
  return joined ['/'] parts

/-- The subpath behind the `#`; it has to name something. -/
def readSubpath (cs : List Char) : Except Malformed (List Char) := do
  let parts ← segments cs (fun t => namesChild t && !t.contains '/') .invalidSubpathSegment
  return joined ['/'] parts

/-- The qualifiers behind the `?`, in the order written; those without a value are dropped. -/
def readQualifiers (cs : List Char) : Except Malformed (List (List Char × List Char)) :=
  let written := (pieces '&' cs).filterMap fun pair =>
    match cutFirst '=' pair with
    | some (_, []) => none
    | some (key, value) => some (key, value)
    | none => none
  written.mapM fun (key, value) => do return (key, ← decoded value)

/-- Cut off what stands behind the last separator. -/
def cutTail (sep : Char) (cs : List Char) : List Char × Option (List Char) :=
  match cutLast sep cs with
  | some (front, tail) => (front, some tail)
  | none => (cs, none)

/-- The text without the slashes at its end. -/
def dropEndSlashes (cs : List Char) : List Char := (cs.reverse.dropWhile (· == '/')).reverse

/-- The name in the spelling its ecosystem uses. -/
def canonicalName (ecosystem : String) (name : List Char) : List Char :=
  if ecosystem = "bitbucket" ∨ ecosystem = "github" then lowercase name
  else if ecosystem = "pypi" then lowercase (name.map fun c => if c = '_' then '-' else c)
  else if ecosystem ∈ ["deb", "hex", "npm"] ∧ name.any isLowercase then lowercase name
  else name

/-- The group in the spelling its ecosystem uses. -/
def canonicalGroup (ecosystem : String) (group : List Char) : List Char :=
  if ecosystem ∈ ["bitbucket", "deb", "github", "golang", "hex", "rpm"] then lowercase group
  else group

/-- A part that is absent when it is empty. -/
def nonEmpty (cs : List Char) : Option String :=
  if cs = [] then none else some (String.ofList cs)

/-- Bind the qualifiers in turn, their keys in lower case. -/
def bindQualifiers (qs : List (List Char × List Char)) : Except Malformed (StringMap String) :=
  qs.foldlM (fun (m : StringMap String) (q : List Char × List Char) =>
    if validKey q.1 then
      .ok (m.insert (String.ofList (q.1.map Char.toLower)) (String.ofList q.2))
    else .error (.invalidKey (String.ofList q.1))) StringMap.empty

/-- Read a package URL from its characters. -/
def readChars (cs : List Char) : Except Malformed Coordinate := do
  let some (scheme, rest) := cutFirst ':' cs | .error .missingScheme
  if scheme ≠ "pkg".toList then .error (.invalidScheme (String.ofList scheme))
  let (rest, path) := cutTail '#' rest
  let subpath ← path.mapM readSubpath
  let (rest, pairs) := cutTail '?' rest
  let qualifiers ← readQualifiers (pairs.getD [])
  let (rest, release) := cutTail '@' rest
  let version ← release.mapM decoded
  let some (kind, rest) := cutFirst '/' (rest.dropWhile (· == '/')) | .error .missingType
  unless validEcosystem kind do .error (.invalidType (String.ofList kind))
  let ecosystem := String.ofList (kind.map Char.toLower)
  let rest := dropEndSlashes rest
  if rest = [] then .error .missingName
  let (front, last) := (cutLast '/' rest).getD ([], rest)
  let name ← decoded last
  let group ← readGroup front
  if subpath = some [] then .error (.invalidSubpathSegment "")
  let qualifiers ← bindQualifiers qualifiers
  return {
    ecosystem
    group := nonEmpty (canonicalGroup ecosystem group)
    name := String.ofList (canonicalName ecosystem name)
    version := version.bind nonEmpty
    qualifiers
    subpath := subpath.bind nonEmpty }

/-- Read a package URL. -/
def parse (s : String) : Except Malformed Coordinate := readChars s.toList

/-- Read a package URL, when it is one. -/
def parse? (s : String) : Option Coordinate := (parse s).toOption

end BomAssembly.Coordinate
