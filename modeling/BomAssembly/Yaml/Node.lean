import BomAssembly.Yaml.Lexer

/-!
# Nodes of a YAML document

The tree of a document with its tags and anchors, before scalars get a type. An anchor gives its node
a number, the count of the names in use at that point, and an alias holds the number that its name
has there. A name that is given again gets a new number, which the next new name will share; a number
always means the last node that got it.
-/

namespace BomAssembly.Yaml

/-- A node. -/
inductive Node where
  | scalar (tag : Option String) (style : Style) (text : String)
  | sequence (tag : Option String) (items : List Node)
  | mapping (tag : Option String) (entries : List (Node × Node))
  | alias (number : Nat)
  deriving Inhabited

/-- A document. -/
structure Document where
  /-- The node at the top, unless the stream is empty. -/
  root : Option Node
  /-- The nodes with a number, and how many nodes with an anchor began before each. -/
  anchored : List (Nat × Nat × Node)

namespace Node

/-- A node of nothing. -/
def empty : Node := .scalar none .plain ""

/-- How many steps it takes to walk through a node without following aliases. -/
def steps : Node → Nat
  | .scalar .. => 1
  | .alias _ => 1
  | .sequence _ items => 2 + stepsOfItems items
  | .mapping _ entries => 2 + stepsOfEntries entries
where
  /-- `steps` over items. -/
  stepsOfItems : List Node → Nat
    | [] => 0
    | n :: rest => n.steps + stepsOfItems rest
  /-- `steps` over entries. -/
  stepsOfEntries : List (Node × Node) → Nat
    | [] => 0
    | (k, v) :: rest => k.steps + v.steps + stepsOfEntries rest

end Node

/-- The node that a number means. -/
def Document.lookup (d : Document) (number : Nat) : Option Node :=
  let found := d.anchored.filter fun a => a.1 == number
  (found.foldl (fun best a =>
    match best with
    | some b => if b.2.1 < a.2.1 then some a else best
    | none => some a) none).map fun a => a.2.2

/-! ## Reading -/

/-- The state of reading the tokens of a document. -/
structure NodeReader where
  tokens : List Token
  /-- The roots that tag handles stand for. -/
  handles : List (List Char × List Char)
  /-- The anchors' names and their numbers. -/
  numbers : List (List Char × Nat) := []
  /-- How many nodes with an anchor have begun. -/
  begun : Nat := 0
  anchored : List (Nat × Nat × Node) := []

namespace NodeReader

/-- Pass over a token. -/
def skip (s : NodeReader) : NodeReader := { s with tokens := s.tokens.drop 1 }

/-- The token at hand. -/
def next? (s : NodeReader) : Option Token := s.tokens.head?

/-- The tag that a handle and a suffix stand for; a handle has to be known. -/
def resolve (s : NodeReader) (handle suffix : List Char) : Option String :=
  if handle.isEmpty then some (String.ofList suffix)
  else (s.handles.lookup handle).map fun root => String.ofList (root ++ suffix)

/-- The name and tag in front of a node, in either order. -/
def properties (s : NodeReader) :
    Option (Option (List Char) × Option (List Char × List Char)) × NodeReader :=
  match s.tokens with
  | .anchor a :: .tag h t :: rest => (some (some a, some (h, t)), { s with tokens := rest })
  | .anchor a :: rest => (some (some a, none), { s with tokens := rest })
  | .tag h t :: .anchor a :: rest => (some (some a, some (h, t)), { s with tokens := rest })
  | .tag h t :: rest => (some (none, some (h, t)), { s with tokens := rest })
  | _ => (none, s)

/-- Give a node that begins here the number of its anchor. -/
def number (name : Option (List Char)) (s : NodeReader) : Option (Nat × Nat) × NodeReader :=
  match name with
  | none => (none, s)
  | some a =>
    let n := s.numbers.length
    let numbers := (a, n) :: s.numbers.filter fun e => e.1 != a
    (some (n, s.begun), { s with numbers, begun := s.begun + 1 })

/-- Remember a finished node under its number. -/
def remember (at? : Option (Nat × Nat)) (n : Node) (s : NodeReader) : Node × NodeReader :=
  match at? with
  | none => (n, s)
  | some (number, order) => (n, { s with anchored := (number, order, n) :: s.anchored })

end NodeReader

/-- The kinds of place a node can stand in. -/
inductive Setting where
  /-- Inside brackets. -/
  | flow
  /-- Indented. -/
  | block
  /-- Behind a key or as one: a sequence need not be indented further. -/
  | entry
  deriving DecidableEq

/-- Whether a token shows that a node is left out in a block mapping. -/
def Token.endsEntry : Token → Bool
  | .key | .value | .blockEnd => true
  | _ => false

/-- Whether a token shows that a node is left out in brackets. -/
def Token.endsFlow (close : Token) (t : Token) : Bool := t == .flowEntry || t == close

mutual

/-- A node. -/
def readNode (fuel : Nat) (setting : Setting) (s : NodeReader) : Option (Node × NodeReader) :=
  match fuel with
  | 0 => none
  | fuel + 1 => do
    match s.next? with
    | some (.alias name) =>
      let number ← s.numbers.lookup name
      some (.alias number, s.skip)
    | _ =>
      let (props, s) := s.properties
      let tag ←
        match props with
        | some (_, some (h, t)) => (s.resolve h t).map some
        | _ => some none
      let finish (read : NodeReader → Option (Node × NodeReader)) :
          Option (Node × NodeReader) := do
        let (at?, s) := s.number (props.bind Prod.fst)
        let (n, s) ← read s
        some (s.remember at? n)
      match s.next? with
      | some (.scalar style text) =>
        let tag := if tag == some "!" then none else tag
        finish fun s => some (.scalar tag style (String.ofList text), s.skip)
      | some .flowSequence =>
        finish fun s => do
          let (items, s) ← readFlowItems fuel true s.skip
          some (.sequence tag items, s)
      | some .flowMapping =>
        finish fun s => do
          let (entries, s) ← readFlowEntries fuel true s.skip
          some (.mapping tag entries, s)
      | some t =>
        if setting == .entry && t == .blockEntry then
          finish fun s => do
            let (items, s) ← readFlatItems fuel s
            some (.sequence tag items, s)
        else if setting != .flow && t == .blockSequence then
          finish fun s => do
            let (items, s) ← readItems fuel s.skip
            some (.sequence tag items, s)
        else if setting != .flow && t == .blockMapping then
          finish fun s => do
            let (entries, s) ← readEntries fuel s.skip
            some (.mapping tag entries, s)
        else if props.isSome then
          finish fun s => some (.scalar tag .plain "", s)
        else none
      | none => none

/-- The items of an indented sequence, up to its end. -/
def readItems (fuel : Nat) (s : NodeReader) : Option (List Node × NodeReader) :=
  match fuel with
  | 0 => none
  | fuel + 1 => do
    match s.next? with
    | some .blockEntry =>
      let s := s.skip
      let (n, s) ←
        match s.next? with
        | some .blockEntry | some .blockEnd => some (Node.empty, s)
        | _ => readNode fuel .block s
      let (more, s) ← readItems fuel s
      some (n :: more, s)
    | some .blockEnd => some ([], s.skip)
    | _ => none

/-- The items of a sequence that is not indented further than the key in front of it. -/
def readFlatItems (fuel : Nat) (s : NodeReader) : Option (List Node × NodeReader) :=
  match fuel with
  | 0 => none
  | fuel + 1 => do
    match s.next? with
    | some .blockEntry =>
      let s := s.skip
      let (n, s) ←
        if s.next?.any fun t => t == .blockEntry || t.endsEntry then some (Node.empty, s)
        else readNode fuel .block s
      let (more, s) ← readFlatItems fuel s
      some (n :: more, s)
    | _ => some ([], s)

/-- The entries of an indented mapping, up to its end. -/
def readEntries (fuel : Nat) (s : NodeReader) : Option (List (Node × Node) × NodeReader) :=
  match fuel with
  | 0 => none
  | fuel + 1 => do
    match s.next? with
    | some .key =>
      let (k, s) ← readSide fuel s.skip
      let (v, s) ←
        if s.next? == some .value then readSide fuel s.skip else some (Node.empty, s)
      let (more, s) ← readEntries fuel s
      some ((k, v) :: more, s)
    | some .blockEnd => some ([], s.skip)
    | _ => none

/-- A key or a value of an indented mapping; either can be left out. -/
def readSide (fuel : Nat) (s : NodeReader) : Option (Node × NodeReader) :=
  match fuel with
  | 0 => none
  | fuel + 1 =>
    if s.next?.any Token.endsEntry then some (Node.empty, s) else readNode fuel .entry s

/-- The items of a sequence in brackets; `first` before the first one. -/
def readFlowItems (fuel : Nat) (first : Bool) (s : NodeReader) :
    Option (List Node × NodeReader) :=
  match fuel with
  | 0 => none
  | fuel + 1 => do
    if s.next? == some .flowSequenceEnd then some ([], s.skip)
    else
      let s ← if first then some s else if s.next? == some .flowEntry then some s.skip else none
      match s.next? with
      | some .flowSequenceEnd => some ([], s.skip)
      | some .key =>
        let (entry, s) ← readPair fuel s.skip
        let (more, s) ← readFlowItems fuel false s
        some (.mapping none [entry] :: more, s)
      | _ =>
        let (n, s) ← readNode fuel .flow s
        let (more, s) ← readFlowItems fuel false s
        some (n :: more, s)

/-- A single entry that stands as an item of a sequence in brackets. -/
def readPair (fuel : Nat) (s : NodeReader) : Option ((Node × Node) × NodeReader) :=
  match fuel with
  | 0 => none
  | fuel + 1 => do
    let (k, s) ←
      if s.next?.any fun t => t == .value || t.endsFlow .flowSequenceEnd then
        some (Node.empty, s.skip)
      else readNode fuel .flow s
    let (v, s) ← readFlowValue fuel .flowSequenceEnd s
    some ((k, v), s)

/-- A value in brackets, if one is written. -/
def readFlowValue (fuel : Nat) (close : Token) (s : NodeReader) : Option (Node × NodeReader) :=
  match fuel with
  | 0 => none
  | fuel + 1 =>
    if s.next? == some .value then
      if s.skip.next?.any (Token.endsFlow close) then some (Node.empty, s.skip)
      else readNode fuel .flow s.skip
    else some (Node.empty, s)

/-- The entries of a mapping in brackets; `first` before the first one. -/
def readFlowEntries (fuel : Nat) (first : Bool) (s : NodeReader) :
    Option (List (Node × Node) × NodeReader) :=
  match fuel with
  | 0 => none
  | fuel + 1 => do
    if s.next? == some .flowMappingEnd then some ([], s.skip)
    else
      let s ← if first then some s else if s.next? == some .flowEntry then some s.skip else none
      match s.next? with
      | some .flowMappingEnd => some ([], s.skip)
      | some .key =>
        let s := s.skip
        let (k, s) ←
          if s.next?.any fun t => t == .value || t.endsFlow .flowMappingEnd then
            some (Node.empty, s)
          else readNode fuel .flow s
        let (v, s) ← readFlowValue fuel .flowMappingEnd s
        let (more, s) ← readFlowEntries fuel false s
        some ((k, v) :: more, s)
      | _ =>
        let (k, s) ← readNode fuel .flow s
        let (more, s) ← readFlowEntries fuel false s
        some ((k, Node.empty) :: more, s)

end

/-! ## Documents -/

/-- The directives in front of a document: at most one version, and each handle once. -/
def readDirectives (version : Bool) (handles : List (List Char × List Char)) :
    List Token → Option (List (List Char × List Char) × List Token)
  | .version major minor :: rest =>
    if version || major != 1 || !(minor == 1 || minor == 2) then none
    else readDirectives true handles rest
  | .tagHandle handle root :: rest =>
    if (handles.lookup handle).isSome then none
    else readDirectives version ((handle, root) :: handles) rest
  | rest => some (handles, rest)

/-- The handles that need no directive. -/
def standardHandles : List (List Char × List Char) :=
  [(['!'], ['!']), (['!', '!'], "tag:yaml.org,2002:".toList)]

/-- The document of a stream that holds at most one. -/
def Document.ofTokens? (tokens : List Token) : Option Document := do
  let fuel := 2 * tokens.length + 2
  if tokens == [.streamEnd] then some ⟨none, []⟩
  else
    let (handles, rest) ← readDirectives false [] tokens
    let handles := handles ++ standardHandles
    let (root, s) ←
      match rest with
      | .documentStart :: rest =>
        let s : NodeReader := { tokens := rest, handles }
        match rest with
        | .documentStart :: _ | .documentEnd :: _ | .streamEnd :: _
        | .version .. :: _ | .tagHandle .. :: _ => some (Node.empty, s)
        | _ => readNode fuel .block s
      | _ =>
        if rest.length = tokens.length then readNode fuel .block { tokens := rest, handles }
        else none
    if (s.tokens.dropWhile (· == .documentEnd)) == [.streamEnd] then some ⟨root, s.anchored⟩
    else none

/-- The document of a stream. -/
def Document.parse? (text : String) : Option Document := (tokens? text).bind Document.ofTokens?

end BomAssembly.Yaml
