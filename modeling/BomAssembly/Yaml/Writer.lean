import BomAssembly.Text.SortedMap
import BomAssembly.Yaml.PlainValue
import BomAssembly.Yaml.Token

/-!
# Writing YAML

A mapping has one entry a line, an item of a sequence follows a dash, and what a collection holds is
indented by two, save that a sequence stands as deep as the key in front of it. A text is written:

* plainly, where that reads back as the same text;
* in single quotes, where it would read as something else or an indicator is in the way;
* as a block of lines, when it has line feeds;
* in double quotes, when it has characters that cannot be written as they are, or when blanks stand
  next to a line break.
-/

namespace BomAssembly.Yaml

/-- What is written. -/
inductive Data where
  | null
  | bool (value : Bool)
  | int (value : Int)
  | str (value : String)
  | seq (items : List Data)
  | map (entries : List (String × Data))
  deriving Inhabited

/-- A map of texts. -/
def Data.ofTexts (m : Text.StringMap String) : Data :=
  .map (m.entries.map fun (k, v) => (k, .str v))

/-! ## Texts -/

/-- Whether two characters stand next to each other somewhere. -/
def hasPair (first second : Char → Bool) : List Char → Bool
  | a :: b :: rest => (first a && second b) || hasPair first second (b :: rest)
  | _ => false

/-- Whether an indicator that needs a blank beside it stands behind the first character. -/
def hasInnerIndicator : List Char → Bool
  | a :: b :: rest =>
    (b == ':' && endsWord rest) || (b == '#' && (isSpacing a || isBreak a)) ||
      hasInnerIndicator (b :: rest)
  | _ => false

/-- Whether a text begins like something else than a plain scalar. -/
def startsWithIndicator : List Char → Bool
  | [] => false
  | c :: cs =>
    "#,[]\x7b\x7d&*!|>'\"%@\x60".toList.contains c ||
      ((c == '?' || c == ':' || c == '-') && endsWord cs) ||
      startMark.isPrefixOf (c :: cs) || endMark.isPrefixOf (c :: cs)

/-- Whether a text has blanks or line breaks at either end. -/
def hasLooseEnds (cs : List Char) : Bool :=
  let loose (c : Char) : Bool := c == ' ' || isBreak c
  cs.head?.any loose || cs.getLast?.any loose

/-- Whether blanks stand in front of a line break. -/
def hasBlankBeforeBreak (cs : List Char) : Bool := hasPair (· == ' ') isBreak cs

/-- Whether a text can be written between quotes or as a block at all. -/
def isWritable (cs : List Char) : Bool := cs.all isPrintable && !hasBlankBeforeBreak cs

/-- How a text is written; a key in front of its value has no line breaks. -/
def styleOf (isKey : Bool) (s : String) : Style :=
  let cs := s.toList
  let quoted : Style :=
    if isWritable cs && !hasPair isBreak (· == ' ') cs && !(isKey && cs.any isBreak) then
      .singleQuoted
    else .doubleQuoted
  if cs.contains '\n' then
    if isWritable cs && cs.getLast? != some ' ' && !isKey then .literal else .doubleQuoted
  else if plainValue s != .text || isPadded cs then quoted
  else if isWritable cs && !hasLooseEnds cs && !cs.any isBreak && !startsWithIndicator cs &&
      !hasInnerIndicator cs then
    .plain
  else quoted

/-- Blanks in front of a line. -/
def pad (n : Nat) : List Char := List.replicate n ' '

/-- A text in single quotes, from behind the quote on; lines after a break are indented. -/
def singleText (indent : Nat) (broken : Bool) : List Char → List Char
  | [] => (if broken then pad indent else []) ++ ['\'']
  | c :: cs =>
    if isBreak c then
      (if !broken && c == '\n' then [c] else []) ++ c :: singleText indent true cs
    else
      (if broken then pad indent else []) ++
        (if c == '\'' then ['\'', '\''] else [c]) ++ singleText indent false cs

/-- A hexadecimal number of so many digits. -/
def hexText : Nat → Nat → List Char
  | 0, _ => []
  | digits + 1, n => hexText digits (n / 16) ++ [Text.Percent.hexDigit (n % 16)]

/-- The letter of a one-letter escape. -/
def escapeLetter? (n : Nat) : Option Char :=
  match n with
  | 0x00 => some '0'
  | 0x07 => some 'a'
  | 0x08 => some 'b'
  | 0x09 => some 't'
  | 0x0A => some 'n'
  | 0x0B => some 'v'
  | 0x0C => some 'f'
  | 0x0D => some 'r'
  | 0x1B => some 'e'
  | 0x22 => some '"'
  | 0x5C => some '\\'
  | 0x85 => some 'N'
  | 0xA0 => some '_'
  | 0x2028 => some 'L'
  | 0x2029 => some 'P'
  | _ => none

/-- A character between double quotes. -/
def doubleChar (c : Char) : List Char :=
  if isPrintable c && !isBreak c && c != '"' && c != '\\' then [c]
  else
    let n := c.toNat
    '\\' ::
      (match escapeLetter? n with
      | some l => [l]
      | none =>
        if n ≤ 0xFF then 'x' :: hexText 2 n
        else if n ≤ 0xFFFF then 'u' :: hexText 4 n
        else 'U' :: hexText 8 n)

/-- The lines of a block; `fresh` at the start of a line. -/
def blockLines (indent : Nat) (fresh : Bool) : List Char → List Char
  | [] => []
  | c :: cs =>
    if isBreak c then c :: blockLines indent true cs
    else (if fresh then pad indent else []) ++ c :: blockLines indent false cs

/-- What stands behind the mark of a block: its indentation, and what happens to breaks at its end. -/
def blockHints (cs : List Char) : List Char :=
  let indentation := if cs.head?.any fun c => c == ' ' || isBreak c then ['2'] else []
  let chomping :=
    match cs.reverse with
    | [] => ['-']
    | [c] => if isBreak c then ['+'] else ['-']
    | c :: d :: _ => if isBreak c then (if isBreak d then ['+'] else []) else ['-']
  indentation ++ chomping

/-- A text in its style; its lines after the first are indented. -/
def scalarText (isKey : Bool) (indent : Nat) (s : String) : List Char :=
  let cs := s.toList
  match styleOf isKey s with
  | .singleQuoted => '\'' :: singleText indent false cs
  | .doubleQuoted => '"' :: cs.flatMap doubleChar ++ ['"']
  | .literal => '|' :: blockHints cs ++ '\n' :: blockLines indent true cs
  | _ => cs

/-! ## Collections -/

/-- A text with its last line ended. -/
def endLine (cs : List Char) : List Char := if cs.getLast?.any isBreak then cs else cs ++ ['\n']

/-- A key that stands in front of its value on one line. -/
def isShortKey (s : String) : Bool := !s.toList.any isBreak && s.utf8ByteSize ≤ 128

/-- Lines that begin `indent` deep, put behind a mark of that width less two. -/
def behindMark (mark : Char) (indent : Nat) (lines : List Char) : List Char :=
  mark :: ' ' :: lines.drop (indent + 2)

mutual

/-- The lines of a value that stands on lines of its own. -/
def Data.lines (indent : Nat) : Data → List Char
  | .seq (d :: ds) => itemLines indent (d :: ds)
  | .map (e :: es) => entryLines indent (e :: es)
  | d => pad indent ++ endLine (Data.inline indent d)

/-- A value that fits behind something on a line. -/
def Data.inline (indent : Nat) : Data → List Char
  | .null => "null".toList
  | .bool b => (if b then "true" else "false").toList
  | .int i => (toString i).toList
  | .str s => scalarText false (indent + 2) s
  | .seq _ => "[]".toList
  | .map _ => "\x7b\x7d".toList

/-- The lines of the items of a sequence. -/
def itemLines (indent : Nat) : List Data → List Char
  | [] => []
  | d :: ds =>
    let text :=
      match d with
      | .seq (x :: xs) => behindMark '-' indent (itemLines (indent + 2) (x :: xs))
      | .map (e :: es) => behindMark '-' indent (entryLines (indent + 2) (e :: es))
      | d => '-' :: ' ' :: endLine (Data.inline indent d)
    pad indent ++ text ++ itemLines indent ds

/-- The lines of the entries of a mapping. -/
def entryLines (indent : Nat) : List (String × Data) → List Char
  | [] => []
  | (k, d) :: rest =>
    let text :=
      if isShortKey k then
        scalarText true (indent + 2) k ++ ':' ::
          (match d with
          | .seq (x :: xs) => '\n' :: itemLines indent (x :: xs)
          | .map (e :: es) => '\n' :: entryLines (indent + 2) (e :: es)
          | d => ' ' :: endLine (Data.inline indent d))
      else
        '?' :: ' ' :: endLine (scalarText false (indent + 2) k) ++ pad indent ++
          (match d with
          | .seq (x :: xs) => behindMark ':' indent (itemLines (indent + 2) (x :: xs))
          | .map (e :: es) => behindMark ':' indent (entryLines (indent + 2) (e :: es))
          | d => ':' :: ' ' :: endLine (Data.inline indent d))
    pad indent ++ text ++ entryLines indent rest

end

/-- The document that holds a value. -/
def Data.render (d : Data) : String := String.ofList (d.lines 0)

end BomAssembly.Yaml
