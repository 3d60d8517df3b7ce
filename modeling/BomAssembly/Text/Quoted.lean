import BomAssembly.Text.EscapeTable

/-!
# Quoted text in messages

A message shows a text between double quotes. Quotes and backslashes get a backslash, the common
controls their letter, and whatever would not show by itself is written by number.
-/

namespace BomAssembly.Text

/-- Hexadecimal digits of a number, lower case. -/
def hexDigits (n : Nat) : List Char := Nat.toDigits 16 n

/-- One character inside quotes. -/
def quotedChar (single : Bool) (c : Char) : List Char :=
  match c with
  | '"' => ['\\', '"']
  | '\\' => ['\\', '\\']
  | '\n' => ['\\', 'n']
  | '\r' => ['\\', 'r']
  | '\t' => ['\\', 't']
  | '\x00' => ['\\', '0']
  | '\'' => if single then ['\\', '\''] else ['\'']
  | c =>
    if 0x20 ≤ c.toNat && c.toNat < 0x7F then [c]
    else if escapedRuns.any fun (first, last) => first ≤ c.toNat && c.toNat ≤ last then
      ['\\', 'u', '\x7b'] ++ hexDigits c.toNat ++ ['\x7d']
    else [c]

/-- A text between quotes. -/
def quoted (s : String) : String :=
  String.ofList (['"'] ++ s.toList.flatMap (quotedChar false) ++ ['"'])

/-- A file path between quotes; here a single quote gets a backslash too. -/
def quotedPath (s : String) : String :=
  String.ofList (['"'] ++ s.toList.flatMap (quotedChar true) ++ ['"'])

end BomAssembly.Text
