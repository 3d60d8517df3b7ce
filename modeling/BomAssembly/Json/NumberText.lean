import BomAssembly.Json.Value

/-!
# Numbers in JSON texts

A literal is an optional minus sign, digits without a leading zero, an optional fraction and an
optional exponent. Its value:

* without fraction and exponent, the integer, when it fits into 64 bits (unsigned, or signed for a
  negative one; minus zero is no integer);
* else a binary64 number. Of the digits only those that fit into 64 bits count. They are rounded
  once, and multiplied with or divided by a rounded power of ten. A literal beyond the greatest
  number has no value.
-/

namespace BomAssembly.Json

open Number

/-- The parts of a number literal. -/
structure NumberText where
  negative : Bool
  whole : List Char
  fraction : Option (List Char)
  exponent : Option (Bool × List Char)

/-- The digits in front of a text. -/
def takeDigits (cs : List Char) : List Char × List Char :=
  (cs.takeWhile Char.isDigit, cs.dropWhile Char.isDigit)

/-- Digits of which there has to be one. -/
def someDigits (cs : List Char) : Option (List Char × List Char) :=
  match takeDigits cs with
  | ([], _) => none
  | (ds, rest) => some (ds, rest)

/-- The digits before the point: a lone zero, or no zero in front. -/
def takeWhole (cs : List Char) : Option (List Char × List Char) :=
  match someDigits cs with
  | some ('0' :: _ :: _, _) => none
  | r => r

/-- The fraction, if there is one. -/
def takeFraction : List Char → Option (Option (List Char) × List Char)
  | '.' :: rest => (someDigits rest).map fun (ds, rest) => (some ds, rest)
  | cs => some (none, cs)

/-- The sign of an exponent; plus when there is none. -/
def takeSign : List Char → Bool × List Char
  | '+' :: rest => (true, rest)
  | '-' :: rest => (false, rest)
  | cs => (true, cs)

/-- The exponent, if there is one. -/
def takeExponent (cs : List Char) : Option (Option (Bool × List Char) × List Char) :=
  match cs with
  | c :: rest =>
    if c = 'e' ∨ c = 'E' then
      let (up, rest) := takeSign rest
      (someDigits rest).map fun (ds, rest) => (some (up, ds), rest)
    else some (none, cs)
  | [] => some (none, [])

/-- A number literal in front of a text. -/
def takeNumber (cs : List Char) : Option (NumberText × List Char) := do
  let (negative, cs) := match cs with
    | '-' :: rest => (true, rest)
    | cs => (false, cs)
  let (whole, cs) ← takeWhole cs
  let (fraction, cs) ← takeFraction cs
  let (exponent, cs) ← takeExponent cs
  return (⟨negative, whole, fraction, exponent⟩, cs)

/-- The value of a decimal digit. -/
def digitValue (c : Char) : Nat := c.toNat - 48

/-- Take digits into a significand while it fits; the number taken and the number left out. -/
def accumulate (limit : Nat) : List Char → Nat → Nat × Nat × Nat
  | [], f => (f, 0, 0)
  | c :: cs, f =>
    let g := f * 10 + digitValue c
    if g > limit then (f, 0, cs.length + 1)
    else
      let (h, taken, left) := accumulate limit cs g
      (h, taken + 1, left)

/-- The greatest 64-bit significand. -/
def maxSignificand : Nat := Nat.pow 2 64 - 1

/-- The greatest exponent that is written out. -/
def maxWritten : Nat := Nat.pow 2 31 - 1

/-- The number times a power of ten, each step rounded. -/
def scaleBy (x : Binary64) (exponent : Int) : Option Binary64 :=
  if x.isZero then some x
  else if 0 ≤ exponent then
    if exponent ≤ 308 then (Binary64.powerOfTen exponent.toNat).bind x.mul else none
  else if -308 ≤ exponent then (Binary64.powerOfTen (-exponent).toNat).bind x.div
  else ((Binary64.powerOfTen 308).bind x.div).bind fun y => scaleBy y (exponent + 308)
termination_by exponent.natAbs

/-- A significand and a decimal exponent as a number. -/
def fromParts (negative : Bool) (f : Nat) (exponent : Int) : Option JsonNumber :=
  ((Binary64.ofNat f).bind fun x => scaleBy x exponent).map fun x => .float (x.withSign negative)

/-- An integer literal as a number. -/
def integerValue (negative : Bool) (f : Nat) : Option JsonNumber :=
  if !negative then some (.int f)
  else if 0 < f ∧ f ≤ Nat.pow 2 63 then some (.int (-f))
  else fromParts true f 0

/-- The value of a literal, if it has one. -/
def NumberText.value? (t : NumberText) : Option JsonNumber :=
  let (f, _, left) := accumulate maxSignificand t.whole 0
  if t.fraction.isNone && t.exponent.isNone && left == 0 then integerValue t.negative f
  else
    let (f, taken, _) := accumulate maxSignificand (t.fraction.getD []) f
    let start : Int := (left : Int) - taken
    match t.exponent with
    | none => fromParts t.negative f start
    | some (up, ds) =>
      let (shift, _, excess) := accumulate maxWritten ds 0
      if excess > 0 then
        if f ≠ 0 ∧ up then none else some (.float (Binary64.zero t.negative))
      else fromParts t.negative f (if up then start + shift else start - shift)

end BomAssembly.Json
