import BomAssembly.Number.DecimalText
import BomAssembly.Text.Percent

/-!
# What a plain scalar means

A scalar without quotes is nothing, a truth value, a number or a text. Integers are decimal, or
hexadecimal, octal or binary behind `0x`, `0o` and `0b`; digits behind a leading zero are text. An
integer of more than 64 but at most 128 bits is still an integer, a longer one a binary64 number.
-/

namespace BomAssembly.Yaml

open Number

/-- A floating point number. -/
inductive Float where
  | finite (value : Binary64)
  | infinite (negative : Bool)
  | notANumber
  deriving DecidableEq

/-- Whether two numbers are one: both zeros are, and what is not a number is one thing. -/
def Float.same : Float → Float → Bool
  | .finite x, .finite y => x == y || (x.isZero && y.isZero)
  | x, y => x == y

/-- What a plain scalar means. -/
inductive PlainValue where
  | null
  | bool (value : Bool)
  | int (value : Int)
  /-- An integer that does not fit into 64 bits. -/
  | wide (value : Int)
  | float (value : Float)
  | text
  deriving DecidableEq

/-- The words for nothing. -/
def isNullWord (s : String) : Bool := s == "null" || s == "Null" || s == "NULL" || s == "~"

/-- The words for a truth value. -/
def boolWord? (s : String) : Option Bool :=
  if s == "true" || s == "True" || s == "TRUE" then some true
  else if s == "false" || s == "False" || s == "FALSE" then some false
  else none

/-- A text without the sign in front. -/
def unsigned : List Char → Bool × List Char
  | '-' :: rest => (true, rest)
  | '+' :: rest => (false, rest)
  | cs => (false, cs)

/-- Digits behind a leading zero. -/
def isPadded (cs : List Char) : Bool :=
  match (unsigned cs).2 with
  | '0' :: d :: rest => (d :: rest).all Char.isDigit
  | _ => false

/-- A row of digits in a base up to sixteen. -/
def digitsIn? (base : Nat) (cs : List Char) : Option Nat := do
  let ds ← cs.mapM Text.Percent.hexValue?
  if ds.isEmpty || ds.any fun d => base ≤ d then none
  else some (ds.foldl (fun n d => n * base + d) 0)

/-- An integer of any size. -/
def integer? (cs : List Char) : Option Int := do
  let (negative, body) := unsigned cs
  let n ←
    match body with
    | '0' :: 'x' :: ds => digitsIn? 16 ds
    | '0' :: 'o' :: ds => digitsIn? 8 ds
    | '0' :: 'b' :: ds => digitsIn? 2 ds
    | ds => if isPadded cs then none else digitsIn? 10 ds
  some (if negative then -(n : Int) else n)

/-- Whether an integer lies in a signed or unsigned range of so many bits. -/
def fits (bits : Nat) (i : Int) : Bool := decide (-(Nat.pow 2 (bits - 1)) ≤ i ∧ i < Nat.pow 2 bits)

/-- A number that is no integer: a word for an infinite one or for none, or a decimal fraction. -/
def float? (s : String) : Option Float :=
  let (negative, body) := unsigned s.toList
  let body := String.ofList body
  if body == ".inf" || body == ".Inf" || body == ".INF" then some (.infinite negative)
  else if s == ".nan" || s == ".NaN" || s == ".NAN" then some .notANumber
  else (Binary64.ofText? s.toList).map .finite

/-- What a plain scalar means. -/
def plainValue (s : String) : PlainValue :=
  if s == "" || isNullWord s then .null
  else
    match boolWord? s with
    | some b => .bool b
    | none =>
      match (integer? s.toList).filter (fits 128) with
      | some i => if fits 64 i then .int i else .wide i
      | none =>
        if isPadded s.toList then .text
        else
          match float? s with
          | some x => .float x
          | none => .text

end BomAssembly.Yaml
