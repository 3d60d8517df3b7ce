/-!
# Writing a document

An element is written on a line of its own, two spaces deeper than the element around it, and closed
at once when it holds nothing. Text is written right behind the start tag. Angle brackets and
ampersands are written as references, in attributes quotes too. A name has to be an XML name.
-/

namespace BomAssembly.Xml

/-- The characters that may start a name. -/
def startsName (c : Char) : Bool :=
  let n := c.toNat
  let within (a b : Nat) : Bool := a ≤ n && n ≤ b
  c == ':' || c == '_' || c.isAlpha || within 0xC0 0xD6 || within 0xD8 0xF6 || within 0xF8 0x2FF ||
    within 0x370 0x37D || within 0x37F 0x1FFF || within 0x200C 0x200D || within 0x2070 0x218F ||
    within 0x2C00 0x2FEF || within 0x3001 0xD7FF || within 0xF900 0xFDCF || within 0xFDF0 0xFFFD ||
    within 0x10000 0xEFFFF

/-- The characters that a name may hold. -/
def insideName (c : Char) : Bool :=
  let n := c.toNat
  startsName c || c == '-' || c == '.' || c.isDigit || n == 0xB7 || (0x300 ≤ n && n ≤ 0x36F) ||
    (0x203F ≤ n && n ≤ 0x2040)

/-- Whether a text is a name. -/
def isName (cs : List Char) : Bool :=
  match cs with
  | [] => true
  | c :: _ => startsName c && cs.all insideName

/-- One character of a text. -/
def escapeChar (c : Char) : List Char :=
  if c = '<' then "&lt;".toList
  else if c = '>' then "&gt;".toList
  else if c = '&' then "&amp;".toList
  else [c]

/-- A text with references. -/
def escapeText (s : String) : List Char := s.toList.flatMap escapeChar

/-- The value of an attribute with references. -/
def escapeAttribute (s : String) : List Char :=
  s.toList.flatMap fun c => if c = '"' then "&quot;".toList else escapeChar c

/-- What an element holds, one piece after the other. -/
inductive Piece where
  /-- An attribute. -/
  | attribute (name value : String)
  /-- Text. -/
  | text (value : String)
  /-- An element with nothing but text. -/
  | leaf (name value : String)
  /-- An element with pieces of its own. -/
  | branch (name : String) (pieces : List Piece)
  deriving Inhabited

/-- The start of a line at a nesting depth. -/
def newLine (depth : Nat) : List Char := '\n' :: List.replicate (2 * depth) ' '

/-- What the pieces of an element have been written to so far. -/
structure Written where
  /-- The attributes. -/
  attributes : List Char
  /-- What stands between the tags. -/
  inside : List Char
  /-- Whether what follows starts a line: not behind text. -/
  breaks : Bool

/-- An element around what its pieces were written to. -/
def wrap (name : String) (depth : Nat) (w : Written) : List Char :=
  let opening := '<' :: name.toList ++ w.attributes
  if w.inside = [] then opening ++ ['/', '>']
  else
    opening ++ ['>'] ++ w.inside ++ (if w.breaks then newLine depth else []) ++
      ['<', '/'] ++ name.toList ++ ['>']

mutual

/-- An element with its pieces at a nesting depth. -/
def writeElement (depth : Nat) (name : String) (pieces : List Piece) : Option (List Char) :=
  if isName name.toList then
    (writePieces (depth + 1) pieces ⟨[], [], true⟩).map (wrap name depth)
  else none
termination_by (sizeOf pieces, 1)

/-- The pieces of an element, one after the other. -/
def writePieces (depth : Nat) (pieces : List Piece) (w : Written) : Option Written :=
  match pieces with
  | [] => some w
  | .attribute name value :: rest =>
    if isName name.toList then
      writePieces depth rest { w with
        attributes := w.attributes ++ [' '] ++ name.toList ++ ['=', '"'] ++ escapeAttribute value ++
          ['"'] }
    else none
  | .text value :: rest =>
    writePieces depth rest { w with inside := w.inside ++ escapeText value, breaks := false }
  | .leaf name value :: rest =>
    if isName name.toList then
      let line := if w.breaks then newLine depth else []
      writePieces depth rest { w with
        inside := w.inside ++ line ++ wrap name depth ⟨[], escapeText value, false⟩
        breaks := true }
    else none
  | .branch name pieces :: rest =>
    match writeElement depth name pieces with
    | none => none
    | some element =>
      let line := if w.breaks then newLine depth else []
      writePieces depth rest { w with inside := w.inside ++ line ++ element, breaks := true }
termination_by (sizeOf pieces, 0)

end

/-- A document: the declaration, and one element. -/
def writeDocument (name : String) (pieces : List Piece) : Option String :=
  (writeElement 0 name pieces).map fun element =>
    String.ofList ("<?xml version=\"1.0\" encoding=\"UTF-8\"?>\n".toList ++ element ++ ['\n'])

end BomAssembly.Xml
