import BomAssembly.Number.DecimalText
import BomAssembly.Text.Blank
import BomAssembly.Time.Instant

/-!
# Instants as text

An instant is written as date and time in UTC, with as many groups of three digits behind the second
as it needs. Reading takes any offset from UTC, blanks around the numbers, and a blank in place of the
letter between date and time.
-/

namespace BomAssembly.Time

open Number (ofDigits decimalValue)

/-! ## Reading -/

/-- A number of at most `width` digits. -/
def takeNumber (width : Nat) (cs : List Char) : Option (Nat × List Char) :=
  let ds := (cs.take width).takeWhile Char.isDigit
  if ds.isEmpty then none else some (ofDigits 10 decimalValue ds, cs.drop ds.length)

/-- A number of two digits behind blanks. -/
def takeField (cs : List Char) : Option (Nat × List Char) := takeNumber 2 (Text.trimStart cs)

/-- A year: four digits, or any number of them behind a sign. -/
def takeYear (cs : List Char) : Option (Int × List Char) :=
  match Text.trimStart cs with
  | '-' :: rest => (takeNumber rest.length rest).map fun (n, r) => (-(n : Int), r)
  | '+' :: rest => (takeNumber rest.length rest).map fun (n, r) => ((n : Int), r)
  | rest => (takeNumber 4 rest).map fun (n, r) => ((n : Int), r)

/-- A character behind blanks. -/
def takeMark (mark : Char) (cs : List Char) : Option (List Char) :=
  match Text.trimStart cs with
  | c :: rest => if c = mark then some rest else none
  | [] => none

/-- The digits behind the second, as nanoseconds; those after the ninth count for nothing. -/
def takeNanos : List Char → Option (Nat × List Char)
  | '.' :: rest => do
    let ds := (rest.take 9).takeWhile Char.isDigit
    if ds.isEmpty then none
    else
      some (ofDigits 10 decimalValue ds * Nat.pow 10 (9 - ds.length),
        (rest.drop ds.length).dropWhile Char.isDigit)
  | cs => some (0, cs)

/-- Two digits. -/
def takeTwo : List Char → Option (Nat × List Char)
  | a :: b :: rest =>
    if a.isDigit && b.isDigit then some (ofDigits 10 decimalValue [a, b], rest) else none
  | _ => none

/-- The seconds that a place is ahead of UTC. -/
def takeOffset (cs : List Char) : Option (Int × List Char) :=
  match cs with
  | [] => none
  | c :: rest =>
    if c = 'Z' ∨ c = 'z' then some (0, rest)
    else if (cs.take 3).map Char.toUpper = ['U', 'T', 'C'] then some (0, cs.drop 3)
    else if c = '+' ∨ c = '-' ∨ c.toNat = 0x2212 then do
      let (hours, rest) ← takeTwo rest
      let (minutes, rest) ← takeTwo (rest.dropWhile fun c => c == ':' || Text.isBlank c)
      if minutes ≥ 60 then none
      else
        let seconds : Int := hours * 3600 + minutes * 60
        some (if c = '+' then seconds else -seconds, rest)
    else none

/-- The first and the last year that there are instants in. -/
def isKnownYear (y : Int) : Bool := -262143 ≤ y && y ≤ 262142

namespace Instant

/-- Read an instant. -/
def parse? (s : String) : Option Instant := do
  let (year, cs) ← takeYear s.toList
  let (month, cs) ← takeField (← takeMark '-' cs)
  let (day, cs) ← takeField (← takeMark '-' cs)
  let cs ←
    match cs with
    | c :: rest => if c = 'T' ∨ c = 't' ∨ c = ' ' then some rest else none
    | [] => none
  let (hour, cs) ← takeField cs
  let (minute, cs) ← takeField (← takeMark ':' cs)
  let (second, cs) ← takeField (← takeMark ':' cs)
  let (nanos, cs) ← takeNanos cs
  let (offset, cs) ← takeOffset (Text.trimStart cs)
  let date : Date := ⟨year, month, day⟩
  let leap := second == 60
  let wall : Int :=
    date.number * 86400 + hour * 3600 + minute * 60 + (if leap then 59 else second)
  let t : Instant := ⟨wall - offset, nanos + (if leap then perSecond else 0)⟩
  if (Text.trimStart cs).isEmpty && isKnownYear year && date.isValid && hour < 24 &&
      minute < 60 && second ≤ 60 && offset.natAbs < 86400 && isKnownYear t.date.year then
    some t
  else none

/-! ## Writing -/

/-- A number with zeros in front. -/
def padded (width n : Nat) : String :=
  let ds := Nat.toDigits 10 n
  String.ofList (List.replicate (width - ds.length) '0' ++ ds)

/-- A year: four digits, and a sign when that is not enough. -/
def yearText (y : Int) : String :=
  if 0 ≤ y ∧ y ≤ 9999 then padded 4 y.toNat
  else if y < 0 then "-" ++ padded 4 y.natAbs
  else "+" ++ padded 4 y.toNat

/-- The digits behind the second. -/
def nanosText (n : Nat) : String :=
  if n = 0 then ""
  else if n % 1000000 = 0 then "." ++ padded 3 (n / 1000000)
  else if n % 1000 = 0 then "." ++ padded 6 (n / 1000)
  else "." ++ padded 9 n

/-- Write an instant. -/
def render (t : Instant) : String :=
  let d := t.date
  let s := t.secondOfDay
  let second := s % 60 + (if t.isLeap then 1 else 0)
  yearText d.year ++ "-" ++ padded 2 d.month ++ "-" ++ padded 2 d.day ++ "T" ++
    padded 2 (s / 3600) ++ ":" ++ padded 2 (s / 60 % 60) ++ ":" ++ padded 2 second ++
    nanosText (t.nanos % perSecond) ++ "Z"

end Instant

end BomAssembly.Time
