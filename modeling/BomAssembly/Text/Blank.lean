/-!
# Blank characters

What counts as blank around a name, a number or a document: every character with the property
*White_Space*, the ASCII ones and the sixteen others. Trimming removes them from the ends only.
-/

namespace BomAssembly.Text

/-- The characters that trimming removes. -/
def isBlank (c : Char) : Bool :=
  let n := c.toNat
  (9 ≤ n && n ≤ 13) || n == 0x20 || n == 0x85 || n == 0xA0 || n == 0x1680 ||
    (0x2000 ≤ n && n ≤ 0x200A) || n == 0x2028 || n == 0x2029 || n == 0x202F || n == 0x205F ||
    n == 0x3000

/-- The text without the blanks in front. -/
def trimStart (cs : List Char) : List Char := cs.dropWhile isBlank

/-- The text without the blanks behind. -/
def trimEnd (cs : List Char) : List Char := (cs.reverse.dropWhile isBlank).reverse

/-- The text without the blanks at either end. -/
def trim (cs : List Char) : List Char := trimEnd (trimStart cs)

/-- `trim` on strings. -/
def trimmed (s : String) : String := String.ofList (trim s.toList)

/-- A text of blanks only. -/
def allBlank (s : String) : Bool := s.toList.all isBlank

/-- The words between blanks; the first argument is the word begun, backwards. -/
def wordsFrom : List Char → List Char → List (List Char)
  | begun, [] => if begun.isEmpty then [] else [begun.reverse]
  | begun, c :: rest =>
    if isBlank c then
      if begun.isEmpty then wordsFrom [] rest else begun.reverse :: wordsFrom [] rest
    else wordsFrom (c :: begun) rest

/-- The words of a text. -/
def words (s : String) : List String := (wordsFrom [] s.toList).map String.ofList

end BomAssembly.Text
