import BomAssembly.Number.DecimalText

/-!
# Arguments

How the words of a command line become options with values. An option is called by a name behind two
dashes or a letter behind one; letters can stand together, and a value can follow its option at once
or as the next word. A word that begins with a dash is no value, save a negative number where one is
expected. An option is given once at most.
-/

namespace BomAssembly.CommandLine

/-- What values an option has. -/
inductive ValueKind where
  /-- Any text. -/
  | text
  /-- A text that is not empty. -/
  | path
  /-- An integer of 64 bits, which may be negative. -/
  | integer
  /-- A natural number of 64 bits. -/
  | natural
  /-- One of these words. -/
  | oneOf (words : List String)
  deriving DecidableEq, Inhabited

/-- What a word that is given instead of a command stops with. -/
inductive Halt where
  | usage (message : String)
  | version (long : Bool)
  | help
  deriving DecidableEq, Inhabited

/-- What happens when an option is given. -/
inductive OptionEffect where
  | flag
  | value (kind : ValueKind)
  | halt (short long : Halt)
  deriving DecidableEq, Inhabited

/-- An option. -/
structure OptionSpec where
  /-- The name behind two dashes. -/
  name : String
  effect : OptionEffect
  /-- The letter behind one dash. -/
  letter : Option Char := none
  deriving DecidableEq, Inhabited

/-- The options that are given, each with its value. -/
abbrev Given := List (String × String)

/-- An integer with a sign in front, between two bounds. -/
def integer? (low high : Int) (s : String) : Option Int :=
  let value :=
    match s.toList with
    | '-' :: ds => if ds.head? = some '+' then none else (Number.natural? ds).map fun n => -(n : Int)
    | ds => (Number.natural? ds).map fun n => (n : Int)
  value.filter fun i => low ≤ i ∧ i ≤ high

/-- Whether an option can have a value. -/
def ValueKind.accepts (s : String) : ValueKind → Bool
  | text => true
  | path => s ≠ ""
  | integer => (integer? (-(Nat.pow 2 63)) (Nat.pow 2 63 - 1) s).isSome
  | natural => (Number.naturalBelow? (Nat.pow 2 64) s.toList).isSome
  | oneOf words => s ∈ words

/-- Whether a word can be taken for the value of the option before it. -/
def ValueKind.takes (kind : ValueKind) (word : String) : Bool :=
  match word.toList with
  | '-' :: c :: cs => kind = integer && (c :: cs).all Char.isDigit
  | _ => true

/-- Add an option with its value. -/
def give (o : OptionSpec) (value : String) (given : Given) : Except Halt Given :=
  if (given.lookup o.name).isSome then
    .error (.usage s!"the argument '--{o.name}' cannot be used multiple times")
  else
    match o.effect with
    | .value kind =>
      if kind.accepts value then .ok (given ++ [(o.name, value)])
      else .error (.usage s!"invalid value '{value}' for '--{o.name}'")
    | _ => .ok (given ++ [(o.name, value)])

/-- The error of an option that is not known. -/
def unknownOption (word : String) : Halt := .usage s!"unexpected argument '{word}' found"

/-- The error of an option without its value. -/
def missingValue (o : OptionSpec) : Halt :=
  .usage s!"a value is required for '--{o.name}' but none was supplied"

/-- Take the letters behind a dash; an option that still wants its value is handed back. -/
def takeLetters (specs : List OptionSpec) : List Char → Given → Except Halt (Given × Option OptionSpec)
  | [], given => .ok (given, none)
  | c :: rest, given =>
    match specs.find? fun o => o.letter = some c with
    | none => .error (unknownOption s!"-{c}")
    | some o =>
      match o.effect with
      | .halt short _ => .error short
      | .flag => do takeLetters specs rest (← give o "" given)
      | .value _ =>
        match rest with
        | [] => .ok (given, some o)
        | '=' :: value => return (← give o (String.ofList value) given, none)
        | value => return (← give o (String.ofList value) given, none)

/-- Take an option that is called by its name, with the value behind an equals sign if there is one. -/
def takeName (specs : List OptionSpec) (word : List Char) (given : Given) :
    Except Halt (Given × Option OptionSpec) :=
  let name := String.ofList (word.takeWhile (· ≠ '='))
  let attached := (word.dropWhile (· ≠ '=')).tail?.map String.ofList
  match specs.find? fun o => o.name = name with
  | none => .error (unknownOption s!"--{name}")
  | some o =>
    match o.effect, attached with
    | .halt _ long, none => .error long
    | .flag, none => return (← give o "" given, none)
    | .value _, none => .ok (given, some o)
    | .value _, some value => return (← give o value given, none)
    | _, some value => .error (.usage s!"unexpected value '{value}' for '--{name}' found")

/-- Take options up to the first word that is none; an option may still want its value. -/
def takeOptions (specs : List OptionSpec) :
    Given → Option OptionSpec → List String → Except Halt (Given × List String)
  | given, none, [] => .ok (given, [])
  | _, some o, [] => .error (missingValue o)
  | given, some o, word :: rest =>
    match o.effect with
    | .value kind =>
      if kind.takes word then do takeOptions specs (← give o word given) none rest
      else .error (missingValue o)
    | _ => .error (missingValue o)
  | given, none, word :: rest =>
    match word.toList with
    | ['-', '-'] =>
      match rest with
      | [] => .ok (given, [])
      | next :: _ => .error (unknownOption next)
    | '-' :: '-' :: name => do
      let (given, wanting) ← takeName specs name given
      takeOptions specs given wanting rest
    | '-' :: c :: cs => do
      let (given, wanting) ← takeLetters specs (c :: cs) given
      takeOptions specs given wanting rest
    | _ => .ok (given, word :: rest)

end BomAssembly.CommandLine
