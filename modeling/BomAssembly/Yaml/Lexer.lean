import BomAssembly.Yaml.TagText

/-!
# From a stream to its tokens

The tokens are read from left to right. Indentation opens and closes block collections. A scalar, a
name or a bracket may turn out to be a **key** when the indicator `:` follows it on the same line:
until then its place is remembered, and the key's token is put there afterwards.
-/

namespace BomAssembly.Yaml

/-- A place where a key may begin. -/
structure PendingKey where
  /-- The number of tokens in front of it. -/
  place : Nat
  position : Position
  /-- Nothing but a key can stand here. -/
  required : Bool

/-- The state of reading. -/
structure Lexer where
  rest : List Char
  position : Position
  /-- The tokens so far, last one first. -/
  tokens : List Token
  /-- The columns of the block collections that are open, innermost first. -/
  indents : List Nat
  /-- Whether a key may begin here. -/
  keyAllowed : Bool
  /-- The place of a possible key at the current bracket level. -/
  pending : Option PendingKey
  /-- The same for each bracket around, innermost first. -/
  outer : List (Option PendingKey)

namespace Lexer

/-- Reading begins. -/
def start (cs : List Char) : Lexer := ⟨cs, ⟨0, 0⟩, [], [], true, none, []⟩

/-- Whether a bracket is open. -/
def inFlow (s : Lexer) : Bool := !s.outer.isEmpty

/-- One more token. -/
def push (t : Token) (s : Lexer) : Lexer := { s with tokens := t :: s.tokens }

/-- Tokens, first one first, put behind the first `place` tokens. -/
def pushAt (place : Nat) (ts : List Token) (s : Lexer) : Lexer :=
  let behind := s.tokens.length - place
  { s with tokens := s.tokens.take behind ++ ts.reverse ++ s.tokens.drop behind }

/-- Pass over some characters of the line. -/
def skip (n : Nat) (s : Lexer) : Lexer :=
  { s with rest := s.rest.drop n, position := s.position.right n }

/-- Go on behind what was read. -/
def goOn {α : Type} (t : Taken α) (s : Lexer) : Lexer :=
  { s with rest := t.rest, position := t.position }

/-- Close the block collections that stand deeper than a column; all of them for none. -/
def unroll (column : Option Nat) (s : Lexer) : Lexer :=
  if s.inFlow then s
  else
    let deeper := s.indents.takeWhile fun i => match column with | some c => c < i | none => true
    { s with
      indents := s.indents.drop deeper.length
      tokens := deeper.map (fun _ => Token.blockEnd) ++ s.tokens }

/-- Whether a column stands deeper than the innermost block collection. -/
def deepens (s : Lexer) (column : Nat) : Bool :=
  !s.inFlow && s.indents.head?.all fun i => i < column

/-- Open a block collection here if the column is deeper than all around. -/
def roll (t : Token) (s : Lexer) : Lexer :=
  if s.deepens s.position.column then
    { s with indents := s.position.column :: s.indents, tokens := t :: s.tokens }
  else s

/-- A possible key that stands on an earlier line or far behind is none; it must not be required. -/
def refresh (p : Position) : Option PendingKey → Option (Option PendingKey)
  | none => some none
  | some k =>
    if k.position.line < p.line || k.position.column + 1024 < p.column then
      if k.required then none else some none
    else some (some k)

/-- Forget the possible keys that are none. -/
def dropStale (s : Lexer) : Option Lexer := do
  let pending ← refresh s.position s.pending
  let outer ← s.outer.mapM (refresh s.position)
  some { s with pending, outer }

/-- Forget the possible key; it must not be required. -/
def dropKey (s : Lexer) : Option Lexer :=
  match s.pending with
  | some k => if k.required then none else some { s with pending := none }
  | none => some s

/-- A key may begin here. -/
def saveKey (s : Lexer) : Option Lexer :=
  if s.keyAllowed then do
    let required := !s.inFlow && s.indents.head? == some s.position.column
    let s ← s.dropKey
    some { s with pending := some ⟨s.tokens.length, s.position, required⟩ }
  else some s

/-- Blanks, comments and line breaks in front of a token. -/
def skipBlank (flow : Bool) (comment allowed : Bool) :
    List Char → Position → List Char × Position × Bool
  | [], p => ([], p, allowed)
  | c :: cs, p =>
    if isBreak c then skipBlank flow false (allowed || !flow) cs (p.past c)
    else if comment then skipBlank flow true allowed cs (p.right 1)
    else if c == orderMark && p.column == 0 then skipBlank flow false allowed cs (p.right 1)
    else if c == ' ' || (c == '\t' && (flow || !allowed)) then
      skipBlank flow false allowed cs (p.right 1)
    else if c == '#' then skipBlank flow true allowed cs (p.right 1)
    else (c :: cs, p, allowed)

/-- The state at the next token. -/
def toToken (s : Lexer) : Lexer :=
  let (rest, position, keyAllowed) := skipBlank s.inFlow false s.keyAllowed s.rest s.position
  { s with rest, position, keyAllowed }

/-- A directive or a document mark closes everything. -/
def closeAll (s : Lexer) : Option Lexer := do
  let s ← (s.unroll none).dropKey
  some { s with keyAllowed := false }

/-- The end of the stream. -/
def finish (s : Lexer) : Option Lexer := do
  let s ← s.closeAll
  some (s.push .streamEnd)

/-- A directive. -/
def directive (s : Lexer) : Option Lexer := do
  let s ← s.closeAll
  let t ← takeDirective (s.rest.drop 1) (s.position.right 1)
  some ((s.goOn t).push t.value)

/-- A document mark. -/
def mark (t : Token) (s : Lexer) : Option Lexer := do
  let s ← s.closeAll
  some ((s.push t).skip 3)

/-- An opening bracket. -/
def openFlow (t : Token) (s : Lexer) : Option Lexer := do
  let s ← s.saveKey
  let s := { s with pending := none, outer := s.pending :: s.outer, keyAllowed := true }
  some ((s.push t).skip 1)

/-- A closing bracket. -/
def closeFlow (t : Token) (s : Lexer) : Option Lexer := do
  let s ← s.dropKey
  let s :=
    match s.outer with
    | key :: outer => { s with pending := key, outer }
    | [] => s
  some (({ s with keyAllowed := false }.push t).skip 1)

/-- A comma. -/
def flowEntry (s : Lexer) : Option Lexer := do
  let s ← s.dropKey
  some (({ s with keyAllowed := true }.push .flowEntry).skip 1)

/-- The indicator of an item of a block sequence. -/
def blockEntry (s : Lexer) : Option Lexer :=
  if !s.inFlow && !s.keyAllowed then none
  else do
    let s ← (s.roll .blockSequence).dropKey
    some (({ s with keyAllowed := true }.push .blockEntry).skip 1)

/-- The indicator of a key of any kind. -/
def key (s : Lexer) : Option Lexer :=
  if !s.inFlow && !s.keyAllowed then none
  else do
    let s ← (s.roll .blockMapping).dropKey
    some (({ s with keyAllowed := !s.inFlow }.push .key).skip 1)

/-- The indicator of a value. What may be a key is one now. -/
def value (s : Lexer) : Option Lexer :=
  match s.pending with
  | some k =>
    let column := k.position.column
    let s :=
      if s.deepens column then
        { s.pushAt k.place [.blockMapping, .key] with indents := column :: s.indents }
      else s.pushAt k.place [.key]
    some (({ s with pending := none, keyAllowed := false }.push .value).skip 1)
  | none =>
    if !s.inFlow && !s.keyAllowed then none
    else
      let s := s.roll .blockMapping
      some (({ s with keyAllowed := !s.inFlow }.push .value).skip 1)

/-- A token at which a key may begin, and after which none may. -/
def item {α : Type} (take : List Char → Position → Option (Taken α)) (token : α → Token)
    (s : Lexer) : Option Lexer := do
  let s ← s.saveKey
  let t ← take s.rest s.position
  some (({ s with keyAllowed := false }.goOn t).push (token t.value))

/-- A plain scalar. After a line break a key may begin again. -/
def plain (s : Lexer) : Option Lexer := do
  let s ← s.saveKey
  let indent := match s.indents with | i :: _ => i + 1 | [] => 0
  let t ← takePlain s.inFlow indent .empty [] s.rest s.position
  some (({ s with keyAllowed := t.value.2 }.goOn t).push (.scalar .plain t.value.1))

/-- A block scalar. -/
def block (folded : Bool) (s : Lexer) : Option Lexer := do
  let s ← s.dropKey
  let t ← takeBlock folded s.indents.head? (s.rest.drop 1) (s.position.right 1)
  let style := if folded then Style.folded else .literal
  some (({ s with keyAllowed := true }.goOn t).push (.scalar style t.value))

/-- What is taken from behind an indicator. -/
def behind {α : Type} (take : List Char → Position → Option (Taken α)) (cs : List Char)
    (p : Position) : Option (Taken α) :=
  take (cs.drop 1) (p.right 1)

/-- Whether a plain scalar may begin with these characters. -/
def startsPlain (flow : Bool) : List Char → Bool
  | [] => false
  | c :: cs =>
    if c == '-' then !(cs.head?.any isSpacing)
    else if c == '?' || c == ':' then !flow && !endsWord cs
    else !(isSpacing c) && !"#,[]\x7b\x7d&*!|>'\"%@\x60".toList.contains c

/-- The token that begins here; `c` is the first character of what is left. -/
def token (c : Char) (s : Lexer) : Option Lexer :=
  let next := s.rest.drop 1
  if s.position.column == 0 && c == '%' then s.directive
  else if atMark startMark s.position s.rest then s.mark .documentStart
  else if atMark endMark s.position s.rest then s.mark .documentEnd
  else if c == '[' then s.openFlow .flowSequence
  else if c == '\x7b' then s.openFlow .flowMapping
  else if c == ']' then s.closeFlow .flowSequenceEnd
  else if c == '\x7d' then s.closeFlow .flowMappingEnd
  else if c == ',' then s.flowEntry
  else if c == '-' && endsWord next then s.blockEntry
  else if c == '?' && (s.inFlow || endsWord next) then s.key
  else if c == ':' && (s.inFlow || endsWord next) then s.value
  else if c == '*' then s.item (behind takeName) .alias
  else if c == '&' then s.item (behind takeName) .anchor
  else if c == '!' then s.item (takeTag s.inFlow) fun t => .tag t.1 t.2
  else if c == '|' && !s.inFlow then s.block false
  else if c == '>' && !s.inFlow then s.block true
  else if c == '\'' then s.item (behind (takeSingle .empty [])) (.scalar .singleQuoted)
  else if c == '"' then s.item (behind (takeDouble .text .empty [])) (.scalar .doubleQuoted)
  else if startsPlain s.inFlow s.rest then s.plain
  else none

/-- All tokens up to the end of the stream. Each one takes a character, so `fuel` may be the length. -/
def run : Nat → Lexer → Option Lexer
  | 0, s =>
    let s := s.toToken
    if s.rest.isEmpty then s.dropStale.bind finish else none
  | fuel + 1, s => do
    let s := s.toToken
    let s ← s.dropStale
    match s.rest with
    | [] => s.finish
    | c :: _ => (s.unroll (some s.position.column)).token c >>= run fuel

end Lexer

/-- The tokens of a stream. -/
def tokens? (text : String) : Option (List Token) :=
  let cs := text.toList
  if cs.all isReadable then
    (Lexer.run cs.length (.start (normalized cs))).map fun s => s.tokens.reverse
  else none

end BomAssembly.Yaml
