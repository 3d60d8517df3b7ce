import BomAssembly.Text.CaseTable

/-!
# Letter case

Lower and upper case of whole texts by the Unicode maps. Most characters map to one character; a few
map to several, and a capital sigma becomes a final sigma at the end of a word.
-/

namespace BomAssembly.Text

/-- The one-to-one image of a character under a list of runs. -/
def mapped (runs : List CaseRun) (c : Char) : Char :=
  match runs.find? (·.holds c.toNat) with
  | some run => Char.ofNat (c.toNat + run.distance).toNat
  | none => c

/-- Upper case of one character. -/
def raise (c : Char) : List Char :=
  if c.toNat < 0x80 then [c.toUpper]
  else match raisingLong.lookup c.toNat with
    | some long => long.map Char.ofNat
    | none => [mapped raising c]

/-- Upper case of a text. -/
def uppercase (s : String) : String := String.ofList (s.toList.flatMap raise)

/-- Whether a run of code points holds the character. -/
def inRuns (runs : List (Nat × Nat)) (c : Char) : Bool :=
  runs.any fun (first, last) => first ≤ c.toNat && c.toNat ≤ last

/-- Whether the first character that is not ignorable has a case. -/
def meetsCased (cs : List Char) : Bool :=
  match cs.dropWhile (inRuns caseIgnorable) with
  | [] => false
  | c :: _ => inRuns cased c

/-- Lower case of a text, given the characters before it, nearest first. -/
def lowerAfter (before : List Char) : List Char → List Char
  | [] => []
  | c :: rest =>
    let image :=
      if c.toNat < 0x80 then [c.toLower]
      else if c = 'Σ' then [if meetsCased before && !meetsCased rest then 'ς' else 'σ']
      else if c = 'İ' then ['i', Char.ofNat 0x307]
      else [mapped lowering c]
    image ++ lowerAfter (c :: before) rest

/-- Lower case of a text. -/
def lowercase (cs : List Char) : List Char := lowerAfter [] cs

/-- Whether the character is a lower-case letter. -/
def isLowercase (c : Char) : Bool :=
  if c.toNat < 0x80 then c.isLower
  else lowercaseLetters.any fun (first, last, stride) =>
    first ≤ c.toNat && c.toNat ≤ last && (c.toNat - first) % stride == 0

end BomAssembly.Text
