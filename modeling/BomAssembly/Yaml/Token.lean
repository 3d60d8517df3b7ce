import BomAssembly.Yaml.Character

/-!
# Tokens of a YAML stream

The indicators, names and scalars of a stream, together with the starts and the ends of the
collections that indentation alone marks.
-/

namespace BomAssembly.Yaml

/-- How a scalar is written. -/
inductive Style where
  | plain
  | singleQuoted
  | doubleQuoted
  | literal
  | folded
  deriving DecidableEq, Inhabited

/-- A token. -/
inductive Token where
  | version (major minor : Nat)
  | tagHandle (handle root : List Char)
  | documentStart
  | documentEnd
  | blockSequence
  | blockMapping
  | blockEnd
  | flowSequence
  | flowSequenceEnd
  | flowMapping
  | flowMappingEnd
  | blockEntry
  | flowEntry
  | key
  | value
  | alias (name : List Char)
  | anchor (name : List Char)
  | tag (handle suffix : List Char)
  | scalar (style : Style) (text : List Char)
  | streamEnd
  deriving DecidableEq, Inhabited

/-- What was read off the front of a text, and what is left. -/
structure Taken (α : Type) where
  value : α
  rest : List Char
  position : Position

end BomAssembly.Yaml
