import BomAssembly.Text.Quoted

/-!
# Failures

Three levels of failure:

* `ReadFault` says what is wrong with a piece of text that was read;
* `DocumentError` is the failure to read one document (a BOM, a manifest);
* `Failure` is the failure of an operation. Its causes decide what happens next: a **transient** one
  is retried on the next pass, all others are final.

A context can be put in front of a failure's message; failures of the generation tool and of a run's
time limit take none.
-/

namespace BomAssembly

open Text (quotedPath)

/-- What is wrong with a text. -/
inductive ReadFault where
  | invalidJson (detail : String)
  | invalidYaml (detail : String)
  | invalidXml (detail : String)
  | missingField (field context : String)
  | invalidValue (field message : String)
  | invalidPurl (purl reason : String)
  | unknownFormat
  deriving DecidableEq, Inhabited

/-- The fault in words. -/
def ReadFault.message : ReadFault → String
  | invalidJson detail => s!"Invalid JSON structure: {detail}"
  | invalidYaml detail => s!"Invalid YAML structure: {detail}"
  | invalidXml detail => s!"Invalid XML structure: {detail}"
  | missingField field context => s!"Missing required field: {field} in {context}"
  | invalidValue field message => s!"Invalid field value for '{field}': {message}"
  | invalidPurl purl reason => s!"Malformed PURL: {purl} - {reason}"
  | unknownFormat => "Unrecognized document format"

/-- The failure of an operation. -/
inductive Failure where
  /-- A text could not be read; the context names it. -/
  | parse (context : String) (fault : ReadFault)
  /-- A request's configuration is missing or does not fit the request. -/
  | configuration (message : String)
  /-- The generation tool failed. -/
  | toolFailure (message : String) (exitCode : Option Int)
  /-- A job run exceeded its time limit. -/
  | timeout (name : String) (seconds : Nat)
  /-- The platform or the store is unavailable. -/
  | transient (message : String)
  /-- What was declared and what was generated do not fit. -/
  | dataInconsistency (message : String)
  /-- A file could not be read or written. -/
  | file (path : Option String) (message reason : String)
  /-- An input breaks a rule. -/
  | validation (message : String)
  deriving DecidableEq, Inhabited

namespace Failure

/-- An optional path as messages show it. -/
def pathText : Option String → String
  | none => "None"
  | some p => s!"Some({quotedPath p})"

/-- The failure in words. -/
def message : Failure → String
  | parse context _ => s!"Failed to parse {context}"
  | configuration m => s!"Invalid configuration: {m}"
  | toolFailure m _ => s!"Generation tool failed: {m}"
  | timeout name seconds => s!"Job run '{name}' timed out after {seconds}s"
  | transient m => s!"Transient platform error: {m}"
  | dataInconsistency m => s!"Data inconsistency: {m}"
  | file path m _ => s!"IO error at {pathText path}: {m}"
  | validation m => s!"Validation failed: {m}"

/-- What lies behind the failure, in words. -/
def cause? : Failure → Option String
  | parse _ fault => some fault.message
  | file _ _ reason => some reason
  | _ => none

/-- The message and what lies behind it, outermost first. -/
def chain (f : Failure) : List String := f.message :: f.cause?.toList

/-- Whether a later pass may succeed. -/
def isTransient : Failure → Bool
  | transient _ => true
  | file .. => true
  | _ => false

/-- A context in front of a text. -/
def prepend (context existing : String) : String :=
  if existing = "" then context else s!"{context}: {existing}"

/-- Say in which context the failure arose. -/
def addContext (context : String) : Failure → Failure
  | parse c fault => parse (prepend context c) fault
  | configuration m => configuration (prepend context m)
  | transient m => transient (prepend context m)
  | dataInconsistency m => dataInconsistency (prepend context m)
  | validation m => validation (prepend context m)
  | file path m reason => file path (prepend context m) reason
  | f => f

/-- A value that ought to be there, and the failure when it is not. -/
def require {α : Type} (context : String) : Option α → Except Failure α
  | some a => .ok a
  | none => .error (validation context)

/-- A field that a document ought to have. -/
def missingField (field context : String) : Failure :=
  parse "document" (.missingField field context)

/-- A text that is no package URL. -/
def invalidPurl (purl reason : String) : Failure :=
  parse "package coordinate" (.invalidPurl purl reason)

/-- A file operation that failed without a known path. -/
def unnamedFile (message : String) : Failure := file none message message

end Failure

/-- Why a document could not be read. -/
inductive DocumentError where
  | file (detail : String)
  | json (detail : String)
  | xml (detail : String)
  | malformed (detail : String)
  | unknownFormat (detail : String)
  | missingField (field : String)
  deriving DecidableEq, Inhabited

namespace DocumentError

/-- The error in words. -/
def message : DocumentError → String
  | file d => s!"IO error: {d}"
  | json d => s!"JSON parse error: {d}"
  | xml d => s!"XML parse error: {d}"
  | malformed d => s!"Invalid document structure: {d}"
  | unknownFormat d => s!"Unknown document format: {d}"
  | missingField f => s!"Missing required field: {f}"

/-- The failure of an operation that needed the document. -/
def toFailure : DocumentError → Failure
  | file d => .unnamedFile d
  | json d => .parse "document" (.invalidJson d)
  | xml d => .parse "document" (.invalidXml d)
  | malformed d => .parse "document" (.invalidValue "document" d)
  | unknownFormat _ => .parse "document" .unknownFormat
  | missingField f => .missingField f "document"

end DocumentError

end BomAssembly
