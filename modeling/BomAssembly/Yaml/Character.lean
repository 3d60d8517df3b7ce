/-!
# Characters of a YAML stream

Which characters may stand in a stream, which of them end a line or separate words, and which can be
written as they are. The three ways to end a line with control characters, and the next-line
character, all read as a line feed; the line separator and the paragraph separator end a line and are
kept.
-/

namespace BomAssembly.Yaml

/-- A character that may stand in a stream. -/
def isReadable (c : Char) : Bool :=
  let n := c.toNat
  n == 0x09 || n == 0x0A || n == 0x0D || (0x20 ≤ n && n ≤ 0x7E) || n == 0x85 ||
    (0xA0 ≤ n && n ≤ 0xFFFD) || 0x10000 ≤ n

/-- A character that can be written as it is. -/
def isPrintable (c : Char) : Bool :=
  let n := c.toNat
  n == 0x0A || (0x20 ≤ n && n ≤ 0x7E) || (0xA0 ≤ n && n ≤ 0xFFFD && n != 0xFEFF) || 0x10000 ≤ n

/-- The byte order mark. -/
def orderMark : Char := Char.ofNat 0xFEFF

/-- Every way to end a line with control characters, read as a line feed. -/
def normalized : List Char → List Char
  | [] => []
  | '\r' :: '\n' :: rest => '\n' :: normalized rest
  | c :: rest => (if c = '\r' ∨ c.toNat = 0x85 then '\n' else c) :: normalized rest

/-- A character that ends a line. -/
def isBreak (c : Char) : Bool := c == '\n' || c.toNat == 0x2028 || c.toNat == 0x2029

/-- A character that separates words on a line. -/
def isSpacing (c : Char) : Bool := c == ' ' || c == '\t'

/-- Whether a word ends here. -/
def endsWord : List Char → Bool
  | [] => true
  | c :: _ => isSpacing c || isBreak c

/-- Whether nothing more stands on the line. -/
def endsLine : List Char → Bool
  | [] => true
  | c :: _ => isBreak c

/-- A character of an anchor's name or a directive's name. -/
def isNameChar (c : Char) : Bool := c.isAlphanum || c == '-' || c == '_'

/-- Where a character stands. -/
structure Position where
  line : Nat
  column : Nat
  deriving DecidableEq, Inhabited

namespace Position

/-- The position after some characters of a line. -/
def right (p : Position) (n : Nat) : Position := { p with column := p.column + n }

/-- The position after one character. -/
def past (p : Position) (c : Char) : Position :=
  if isBreak c then ⟨p.line + 1, 0⟩ else p.right 1

end Position

/-- Whether a line begins here with the mark that starts or ends a document. -/
def atMark (mark : List Char) (p : Position) (cs : List Char) : Bool :=
  p.column == 0 && mark.isPrefixOf cs && endsWord (cs.drop mark.length)

/-- The mark that starts a document. -/
def startMark : List Char := ['-', '-', '-']

/-- The mark that ends a document. -/
def endMark : List Char := ['.', '.', '.']

/-- Whether a document starts or ends here. -/
def atDocumentMark (p : Position) (cs : List Char) : Bool :=
  atMark startMark p cs || atMark endMark p cs

end BomAssembly.Yaml
