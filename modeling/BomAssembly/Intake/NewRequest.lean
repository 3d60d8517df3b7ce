import BomAssembly.Fingerprint
import BomAssembly.Intake.Notification
import BomAssembly.Request.Basic
import BomAssembly.Settings.Basic

/-!
# Requests that follow from notifications

A notification that names a build or operation, is let through by the trigger and tells of a finished
success calls for a request. The name of the request ends in random digits, so that a message which
arrives twice makes two requests; those digits and the id are drawn outside and handed in.
-/

namespace BomAssembly.Intake

/-- The random texts that a new request takes up. -/
structure Draw where
  /-- The end of its name: eight hexadecimal digits. -/
  tail : String
  /-- Its id: sixteen hexadecimal digits in capitals. -/
  id : String
  deriving DecidableEq, Inhabited

/-- The texts that two random numbers stand for. -/
def Draw.ofNumbers (tail id : UInt64) : Draw :=
  ⟨String.ofList ((Fingerprint.hex tail).toList.drop 8),
    String.ofList ((Fingerprint.hex id).toList.map Char.toUpper)⟩

/-! ## Names -/

/-- Whether a character may stand in the name of a request. -/
def isNameChar (c : Char) : Bool :=
  ('a' ≤ c && c ≤ 'z') || ('0' ≤ c && c ≤ '9') || c == '-'

/-- A dash for every run of characters that may not stand in a name; says whether it stands in one. -/
def dashed : Bool → List Char → List Char
  | _, [] => []
  | inRun, c :: rest =>
    if isNameChar c then c :: dashed false rest
    else if inRun then dashed true rest
    else '-' :: dashed true rest

/-- The text without dashes at its ends. -/
def undashedEnds (cs : List Char) : List Char :=
  let front := cs.dropWhile (· == '-')
  (front.reverse.dropWhile (· == '-')).reverse

/-- What of a build's or operation's id can stand in a name. -/
def slug (id : String) : String :=
  String.ofList (undashedEnds (dashed false (Text.lowercase id.toList)))

/-- The name of a new request. -/
def requestName (id tail : String) : String := s!"sbom-request-{slug id}-{tail}"

/-! ## Requests -/

namespace Notification

/-- The kind of request that a notification calls for. -/
def kind : Notification → Kind
  | build _ => .build
  | analysis _ => .operation

/-- The archives that a notification lists. -/
def urls : Notification → List String
  | build _ => []
  | analysis c => c.urls

end Notification

/-- Whether a trigger lets requests of a kind through. -/
def Accepts (t : Trigger) : Kind → Bool
  | .build => t.acceptsBuilds
  | .operation => t.acceptsOperations

/-- The deliverables behind a list of archives, none of them prepared. -/
def deliverablesOf (urls : List String) : List Deliverable :=
  urls.zipIdx.map fun (url, i) => ⟨i, url, none⟩

/-- The configuration of an operation that delivers a list of archives. -/
def operationOf (id : String) (urls : List String) : Config :=
  .operation ⟨id, .standard, deliverablesOf urls⟩

/-- The request for a build or an operation. -/
def requestFor (n : Notification) (id : String) (draw : Draw) : Request :=
  let r := Request.new (requestName id draw.tail) draw.id n.kind id
  match n.kind with
  | .build => r
  | .operation => r.setConfig (operationOf id n.urls)

/-- The request that a notification calls for, if any. -/
def request? (trigger : Trigger) (draw : Draw) (n : Notification) : Option Request :=
  match n.correlationId? with
  | none => none
  | some id =>
    if Accepts trigger n.kind && n.isFinishedSuccess then some (requestFor n id draw) else none

end BomAssembly.Intake
