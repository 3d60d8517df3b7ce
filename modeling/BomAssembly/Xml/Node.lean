/-!
# XML documents

The tree of a document as it is written: names with their namespace marks, attributes as one piece of
text, and text still with its references. Comments, processing instructions and the declaration are
left out, but they keep apart the pieces of text on their two sides.
-/

namespace BomAssembly.Xml

/-- A piece of a document. -/
inductive Node where
  /-- An element: its name, the text of its attributes, and what it holds. -/
  | element (name attributes : List Char) (children : List Node)
  /-- Text with its references. -/
  | text (raw : List Char)
  /-- Text that is taken literally. -/
  | literal (raw : List Char)
  /-- A document type, which means nothing but parts the texts on its two sides. -/
  | doctype
  deriving Inhabited

/-- The white space of XML. -/
def isSpace (c : Char) : Bool := c == ' ' || c == '\r' || c == '\n' || c == '\t'

/-- The name behind the namespace mark. -/
def localName (name : List Char) : List Char :=
  match name.dropWhile (· ≠ ':') with
  | [] => name
  | _ :: rest => rest

end BomAssembly.Xml
