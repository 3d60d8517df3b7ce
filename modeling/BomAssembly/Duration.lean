import BomAssembly.Failure
import BomAssembly.Number.DecimalText
import BomAssembly.Text.Blank

/-!
# Durations

A duration is written as a natural number of 64 bits and a unit, with blanks around: milliseconds,
seconds, minutes, hours or days. It is held in milliseconds. From seconds on it is counted in whole
seconds, in 64 bits as well, so a number of minutes, hours or days that is too large for that wraps
around; where overflow is checked, the reader stops there instead and there is no duration.
-/

namespace BomAssembly.Duration

/-- A number of units of so many seconds each, in milliseconds. -/
def ofSeconds (length n : Nat) : Nat := n * length % Nat.pow 2 64 * 1000

/-- The units, and what a number of each is in milliseconds; the one of two letters comes first. -/
def units : List (List Char × (Nat → Nat)) := [
  (['m', 's'], id),
  (['s'], ofSeconds 1),
  (['m'], ofSeconds 60),
  (['h'], ofSeconds 3600),
  (['d'], ofSeconds 86400)]

/-- Read a duration without blanks around. -/
def ofChars? (cs : List Char) : Option Nat := do
  let (unit, inMillis) ← units.find? fun u => u.1.isSuffixOf cs
  let n ← Number.naturalBelow? (Nat.pow 2 64) (cs.take (cs.length - unit.length))
  some (inMillis n)

/-- Read a duration, in milliseconds. -/
def parse (s : String) : Except Failure Nat :=
  let text := Text.trimmed s
  match ofChars? text.toList with
  | some ms => .ok ms
  | none => .error (.validation s!"invalid duration '{text}'")

end BomAssembly.Duration
