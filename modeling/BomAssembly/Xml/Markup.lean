import BomAssembly.Text.Split
import BomAssembly.Xml.Node

/-!
# Markup

A document is a sequence of tags, texts and asides. Each piece is cut off the front of the text; what
is left is shorter. A tag ends at the first `>` outside quotes; a comment, a literal text and a
processing instruction end at their own closing marks; a document type ends at the `>` that balances
the angle brackets in it.
-/

namespace BomAssembly.Xml

/-- A piece of markup. -/
inductive Markup where
  /-- A start tag: name, attributes, and whether the element is closed at once. -/
  | start (name attributes : List Char) (closed : Bool)
  | finish (name : List Char)
  | text (raw : List Char)
  | literal (raw : List Char)
  | doctype
  /-- A comment, a processing instruction or the declaration. -/
  | aside

/-- What stands before and after the first occurrence of a mark. -/
def cutAt (mark : List Char) : List Char → Option (List Char × List Char)
  | [] => none
  | c :: rest =>
    if mark.isPrefixOf (c :: rest) then some ([], (c :: rest).drop mark.length)
    else (cutAt mark rest).map fun (a, b) => (c :: a, b)

/-- The inside of a tag and what follows it; `quote` is the quote that is open. -/
def cutTag (quote : Option Char) : List Char → Option (List Char × List Char)
  | [] => none
  | c :: rest =>
    match quote with
    | some q => (cutTag (if c = q then none else some q) rest).map fun (a, b) => (c :: a, b)
    | none =>
      if c = '>' then some ([], rest)
      else
        (cutTag (if c = '"' ∨ c = '\'' then some c else none) rest).map fun (a, b) => (c :: a, b)

/-- The inside of a document type and what follows it; `depth` angle brackets are open. -/
def cutDoctype : Nat → List Char → Option (List Char × List Char)
  | _, [] => none
  | depth, c :: rest =>
    if c = '<' then (cutDoctype (depth + 1) rest).map fun (a, b) => (c :: a, b)
    else if c = '>' then
      match depth with
      | 0 => some ([], rest)
      | d + 1 => (cutDoctype d rest).map fun (a, b) => (c :: a, b)
    else (cutDoctype depth rest).map fun (a, b) => (c :: a, b)

/-- A text without the white space at its end. -/
def dropEndSpace (cs : List Char) : List Char := (cs.reverse.dropWhile isSpace).reverse

/-- A start tag from its inside. -/
def startTag (inside : List Char) : Markup :=
  let split (cs : List Char) (closed : Bool) : Markup :=
    .start (cs.takeWhile fun c => !isSpace c) (cs.dropWhile fun c => !isSpace c) closed
  match inside.getLast? with
  | some '/' => split inside.dropLast true
  | _ => split inside false

/-- The markup behind `<!`. -/
def declarationMarkup (cs : List Char) : Option (Markup × List Char) :=
  if "--".toList.isPrefixOf cs then
    (cutAt "-->".toList (cs.drop 2)).map fun (_, rest) => (.aside, rest)
  else if "[CDATA[".toList.isPrefixOf cs then
    (cutAt "]]>".toList (cs.drop 7)).map fun (inside, rest) => (.literal inside, rest)
  else if (cs.take 7).map Char.toUpper = "DOCTYPE".toList then
    match cutDoctype 0 (cs.drop 7) with
    | some (inside, rest) => if inside.all isSpace then none else some (.doctype, rest)
    | none => none
  else none

/-- The next piece of markup. -/
def nextMarkup (cs : List Char) : Option (Markup × List Char) :=
  match cs with
  | '<' :: '!' :: rest => declarationMarkup rest
  | '<' :: '?' :: '>' :: _ => none
  | '<' :: '?' :: rest => (cutAt "?>".toList rest).map fun (_, rest) => (.aside, rest)
  | '<' :: '/' :: rest => (cutTag none rest).map fun (inside, rest) =>
      (.finish (if inside.all isSpace then inside else dropEndSpace inside), rest)
  | '<' :: rest => (cutTag none rest).map fun (inside, rest) => (startTag inside, rest)
  | cs => some (.text (cs.takeWhile (· ≠ '<')), cs.dropWhile (· ≠ '<'))

end BomAssembly.Xml
