import BomAssembly.Xml.Markup

/-!
# Reading a document

The tags of a document are matched while it is read: the open elements form a stack, and an end tag
closes the innermost one, whose name it has to repeat. Reading stops when the first element is
closed; what stands behind it is not looked at. In front of it only white space, asides and a
document type may stand.
-/

namespace BomAssembly.Xml

/-- An element that is still open, with what it holds so far, last first. -/
structure Open where
  name : List Char
  attributes : List Char
  held : List Node

/-- The element that an open one becomes. -/
def Open.close (o : Open) : Node := .element o.name o.attributes o.held.reverse

/-- Where reading stands. -/
inductive Progress where
  | reading (stack : List Open)
  | done (root : Node)

/-- Hand a finished piece to the innermost open element; the first element is the whole document. -/
def hand (node : Node) : List Open → Progress
  | [] => .done node
  | o :: rest => .reading ({ o with held := node :: o.held } :: rest)

/-- One piece of markup with the open elements. -/
def step (stack : List Open) : Markup → Option Progress
  | .start name attributes false => some (.reading (⟨name, attributes, []⟩ :: stack))
  | .start name attributes true => some (hand (.element name attributes []) stack)
  | .finish name =>
    match stack with
    | o :: rest => if o.name = name then some (hand o.close rest) else none
    | [] => none
  | .text raw =>
    match stack with
    | [] => if raw.all isSpace then some (.reading []) else none
    | stack => some (hand (.text raw) stack)
  | .literal raw =>
    match stack with
    | [] => none
    | stack => some (hand (.literal raw) stack)
  | .doctype =>
    match stack with
    | [] => some (.reading [])
    | stack => some (hand .doctype stack)
  | .aside => some (.reading stack)

/-- Read markup until the first element is closed. -/
def readFrom : Nat → List Open → List Char → Option Node
  | 0, _, _ => none
  | _ + 1, _, [] => none
  | n + 1, stack, c :: cs =>
    match nextMarkup (c :: cs) with
    | none => none
    | some (markup, rest) =>
      match step stack markup with
      | some (.reading stack) => readFrom n stack rest
      | some (.done root) => some root
      | none => none

/-- The first element of a document; a byte order mark may stand in front. -/
def readDocument (s : String) : Option Node :=
  match s.toList with
  | [] => none
  | c :: cs =>
    let text := if c.toNat = 0xFEFF then cs else c :: cs
    readFrom (text.length + 1) [] text

end BomAssembly.Xml
