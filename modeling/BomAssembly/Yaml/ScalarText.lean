import BomAssembly.Text.Percent
import BomAssembly.Yaml.Token

/-!
# The text of a scalar

Plain and quoted scalars may run over several lines: blanks around a line break are dropped, a single
break becomes a space and of several all but the first are kept. A block scalar keeps its lines, less
their common indentation; when it is folded, a single break between two lines that do not start with
a blank becomes a space.
-/

namespace BomAssembly.Yaml

/-! ## Flow scalars -/

/-- What stands between two words: blanks on one line, or line breaks. -/
structure Gap where
  /-- The blanks before the first break, last one first. -/
  blanks : List Char := []
  /-- The breaks, last one first. -/
  breaks : List Char := []
  /-- Whether a line has ended. -/
  broken : Bool := false
  /-- Whether the line ended by an escaped break, which counts for nothing. -/
  escaped : Bool := false

namespace Gap

/-- A gap of nothing. -/
def empty : Gap := {}

/-- One more blank; after a break it is indentation. -/
def blank (g : Gap) (c : Char) : Gap := if g.broken then g else { g with blanks := c :: g.blanks }

/-- One more line break. -/
def lineBreak (g : Gap) (c : Char) : Gap := { g with breaks := c :: g.breaks, broken := true }

/-- The gap after an escaped line break. -/
def afterEscape : Gap := { broken := true, escaped := true }

/-- What line breaks between two words read as. -/
def foldBreaks : List Char → List Char
  | ['\n'] => [' ']
  | '\n' :: more => more
  | breaks => breaks

/-- What a gap reads as. -/
def text (g : Gap) : List Char :=
  if g.broken then (if g.escaped then g.breaks.reverse else foldBreaks g.breaks.reverse)
  else g.blanks.reverse

/-- The text so far, last character first, with a gap behind it. -/
def close (g : Gap) (done : List Char) : List Char := g.text.reverse ++ done

end Gap

/-- A character that ends a plain scalar inside brackets. -/
def isFlowIndicator (c : Char) : Bool :=
  c == ',' || c == '[' || c == ']' || c == '\x7b' || c == '\x7d'

/-- Whether a plain scalar ends before the next word, at a line that is indented too little, at a
comment or at a document mark. -/
def endsPlainLine (flow : Bool) (indent : Nat) (gap : Gap) (p : Position) (cs : List Char) : Bool :=
  (gap.broken && !flow && p.column < indent) ||
    ((gap.broken || !gap.blanks.isEmpty) && (cs.head? == some '#' || atDocumentMark p cs))

/--
A plain scalar, from its first character on. It ends before a comment, a document mark, the
indicator `: ` and, inside brackets, a bracket or comma; outside brackets also before a line that is
indented less than `indent`. The answer says whether the blanks after it hold a line break.
-/
def takePlain (flow : Bool) (indent : Nat) (gap : Gap) (done : List Char) :
    List Char → Position → Option (Taken (List Char × Bool))
  | [], p => some ⟨(done.reverse, gap.broken), [], p⟩
  | c :: cs, p =>
    if isBreak c then takePlain flow indent (gap.lineBreak c) done cs (p.past c)
    else if isSpacing c then
      if gap.broken && p.column < indent && c == '\t' then none
      else takePlain flow indent (gap.blank c) done cs (p.right 1)
    else if endsPlainLine flow indent gap p (c :: cs) then
      some ⟨(done.reverse, gap.broken), c :: cs, p⟩
    else if flow && c == ':' && cs.head?.any fun d => isFlowIndicator d || d == '?' then none
    else if (c == ':' && endsWord cs) || (flow && isFlowIndicator c) then
      some ⟨(done.reverse, gap.broken), c :: cs, p⟩
    else takePlain flow indent .empty (c :: gap.close done) cs (p.right 1)

/-- A single-quoted scalar, from behind its opening quote on. A quote inside is written twice. -/
def takeSingle (gap : Gap) (done : List Char) :
    List Char → Position → Option (Taken (List Char))
  | [], _ => none
  | c :: cs, p =>
    if isBreak c then takeSingle (gap.lineBreak c) done cs (p.past c)
    else if isSpacing c then takeSingle (gap.blank c) done cs (p.right 1)
    else if atDocumentMark p (c :: cs) then none
    else if c = '\'' then
      match cs with
      | '\'' :: more => takeSingle .empty ('\'' :: gap.close done) more (p.right 2)
      | _ => some ⟨(gap.close done).reverse, cs, p.right 1⟩
    else takeSingle .empty (c :: gap.close done) cs (p.right 1)

/-- The character that a one-letter escape stands for. -/
def shortEscape? : Char → Option Char
  | '0' => some '\x00'
  | 'a' => some '\x07'
  | 'b' => some '\x08'
  | 't' => some '\t'
  | '\t' => some '\t'
  | 'n' => some '\n'
  | 'v' => some '\x0b'
  | 'f' => some '\x0c'
  | 'r' => some '\r'
  | 'e' => some '\x1b'
  | ' ' => some ' '
  | '"' => some '"'
  | '/' => some '/'
  | '\\' => some '\\'
  | 'N' => some (Char.ofNat 0x85)
  | '_' => some (Char.ofNat 0xA0)
  | 'L' => some (Char.ofNat 0x2028)
  | 'P' => some (Char.ofNat 0x2029)
  | _ => none

/-- How many hexadecimal digits an escape takes. -/
def escapeDigits? : Char → Option Nat
  | 'x' => some 2
  | 'u' => some 4
  | 'U' => some 8
  | _ => none

/-- What part of a double-quoted scalar is being read. -/
inductive Quoting where
  /-- Ordinary text. -/
  | text
  /-- The letter of an escape. -/
  | escape
  /-- The digits of an escape: how many are left, and the value so far. -/
  | digits (left value : Nat)

/-- A double-quoted scalar, from behind its opening quote on. -/
def takeDouble (part : Quoting) (gap : Gap) (done : List Char) :
    List Char → Position → Option (Taken (List Char))
  | [], _ => none
  | c :: cs, p =>
    match part with
    | .escape =>
      if isBreak c then takeDouble .text .afterEscape done cs (p.past c)
      else
        match shortEscape? c, escapeDigits? c with
        | some d, _ => takeDouble .text .empty (d :: done) cs (p.right 1)
        | none, some n => takeDouble (.digits n 0) .empty done cs (p.right 1)
        | none, none => none
    | .digits left value =>
      match Text.Percent.hexValue? c with
      | none => none
      | some d =>
        let value := value * 16 + d
        if left ≤ 1 then
          if value.isValidChar then
            takeDouble .text .empty (Char.ofNat value :: done) cs (p.right 1)
          else none
        else takeDouble (.digits (left - 1) value) .empty done cs (p.right 1)
    | .text =>
      if isBreak c then takeDouble .text (gap.lineBreak c) done cs (p.past c)
      else if isSpacing c then takeDouble .text (gap.blank c) done cs (p.right 1)
      else if atDocumentMark p (c :: cs) then none
      else if c = '"' then some ⟨(gap.close done).reverse, cs, p.right 1⟩
      else if c = '\\' then takeDouble .escape .empty (gap.close done) cs (p.right 1)
      else takeDouble .text .empty (c :: gap.close done) cs (p.right 1)

/-! ## Block scalars -/

/-- What happens to the line breaks at the end of a block scalar. -/
inductive Chomping where
  | strip
  | clip
  | keep
  deriving DecidableEq

/-- How the lines of a block scalar are to be read. -/
structure BlockHeader where
  folded : Bool
  chomping : Chomping
  /-- The indentation of the lines beyond that of the surroundings, if it is written. -/
  increment : Option Nat

/-- The indicators behind the mark of a block scalar, in either order. -/
def takeHeader (folded : Bool) (cs : List Char) : Option (BlockHeader × List Char) :=
  let chomp : List Char → Chomping × List Char
    | '+' :: rest => (.keep, rest)
    | '-' :: rest => (.strip, rest)
    | rest => (.clip, rest)
  let increment : List Char → Option (Option Nat × List Char)
    | c :: rest =>
      if c = '0' then none else if c.isDigit then some (some (c.toNat - 48), rest)
      else some (none, c :: rest)
    | [] => some (none, [])
  match chomp cs with
  | (.clip, _) => do
    let (inc, rest) ← increment cs
    match inc with
    | some _ =>
      let (chomping, rest) := chomp rest
      some (⟨folded, chomping, inc⟩, rest)
    | none => some (⟨folded, .clip, none⟩, rest)
  | (chomping, rest) => do
    let (inc, rest) ← increment rest
    some (⟨folded, chomping, inc⟩, rest)

/-- The empty lines in front of a block scalar, last one first, and the deepest indentation seen. -/
def takeLeading (breaks : List Char) (deepest : Nat) :
    List Char → Position → Option (Taken (List Char × Nat))
  | [], p => some ⟨(breaks, max deepest p.column), [], p⟩
  | c :: cs, p =>
    if c = ' ' then takeLeading breaks deepest cs (p.right 1)
    else if c = '\t' then none
    else if isBreak c then takeLeading (c :: breaks) (max deepest p.column) cs (p.past c)
    else some ⟨(breaks, max deepest p.column), c :: cs, p⟩

/-- A block scalar that is being read. -/
structure BlockText where
  /-- The text so far, last character first. -/
  done : List Char := []
  /-- The break that ended the last line, if any. -/
  lineEnd : List Char := []
  /-- The breaks of the empty lines since, last one first. -/
  emptyLines : List Char := []
  /-- Whether the last line starts with a blank. -/
  indented : Bool := false
  /-- Whether a line is being read. -/
  inLine : Bool := false

namespace BlockText

/-- The text when a line that starts with `c` begins. -/
def startLine (t : BlockText) (folded : Bool) (c : Char) : BlockText :=
  let joined :=
    if folded && t.lineEnd == ['\n'] && !t.indented && !isSpacing c then
      if t.emptyLines.isEmpty then [' '] else []
    else t.lineEnd
  { done := c :: (t.emptyLines ++ joined ++ t.done), indented := isSpacing c, inLine := true }

/-- The whole text. -/
def finish (t : BlockText) (chomping : Chomping) : List Char :=
  let tail :=
    match chomping with
    | .strip => []
    | .clip => t.lineEnd
    | .keep => t.emptyLines ++ t.lineEnd
  (tail ++ t.done).reverse

end BlockText

/-- The lines of a block scalar that are indented by `indent`. -/
def takeLines (header : BlockHeader) (indent : Nat) (t : BlockText) :
    List Char → Position → Option (Taken (List Char))
  | [], p => some ⟨t.finish header.chomping, [], p⟩
  | c :: cs, p =>
    if t.inLine then
      if isBreak c then
        takeLines header indent { t with lineEnd := [c], inLine := false } cs (p.past c)
      else takeLines header indent { t with done := c :: t.done } cs (p.right 1)
    else if p.column < indent && c == ' ' then takeLines header indent t cs (p.right 1)
    else if p.column < indent && c == '\t' then none
    else if isBreak c then
      takeLines header indent { t with emptyLines := c :: t.emptyLines } cs (p.past c)
    else if p.column = indent then
      takeLines header indent (t.startLine header.folded c) cs (p.right 1)
    else some ⟨t.finish header.chomping, c :: cs, p⟩

/-- What is left of a line that holds nothing but a comment, from its line break on. -/
def skipComment (cs : List Char) (p : Position) : Option (List Char × Position) :=
  let rest := cs.dropWhile isSpacing
  let rest :=
    match rest with
    | '#' :: _ => rest.dropWhile fun c => !isBreak c
    | _ => rest
  let p := p.right (cs.length - rest.length)
  match rest with
  | [] => some ([], p)
  | c :: more => if isBreak c then some (more, p.past c) else none

/-- A block scalar, from behind its mark on. `parent` is the indentation of its surroundings, if any. -/
def takeBlock (folded : Bool) (parent : Option Nat) (cs : List Char) (p : Position) :
    Option (Taken (List Char)) := do
  let (header, rest) ← takeHeader folded cs
  let (rest, p) ← skipComment rest (p.right (cs.length - rest.length))
  match header.increment with
  | some n => takeLines header (parent.getD 0 + n) {} rest p
  | none =>
    let lead ← takeLeading [] 0 rest p
    let least := match parent with | some n => n + 1 | none => 1
    takeLines header (max lead.value.2 least) { emptyLines := lead.value.1 } lead.rest lead.position

end BomAssembly.Yaml
