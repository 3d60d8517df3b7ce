import BomAssembly.Json.Value
import BomAssembly.Number.Shortest

/-!
# Writing JSON texts

Two layouts: **compact**, without any white space, and **indented**, with every item and field on a
line of its own, two spaces deeper than its container, and empty containers closed at once. Strings
escape the quote, the backslash and the control characters; everything else stands as it is.
-/

namespace BomAssembly.Json

open Number

/-- The lower-case hexadecimal digit of a value below sixteen. -/
def lowHex (n : Nat) : Char := if n < 10 then Char.ofNat (48 + n) else Char.ofNat (87 + n)

/-- One character inside a string. -/
def writeChar (c : Char) : List Char :=
  match c with
  | '"' => ['\\', '"']
  | '\\' => ['\\', '\\']
  | '\n' => ['\\', 'n']
  | '\r' => ['\\', 'r']
  | '\t' => ['\\', 't']
  | '\x08' => ['\\', 'b']
  | '\x0c' => ['\\', 'f']
  | c =>
    if c.toNat < 0x20 then
      ['\\', 'u', '0', '0', lowHex (c.toNat / 16), lowHex (c.toNat % 16)]
    else [c]

/-- A string between quotes. -/
def writeString (s : String) : List Char := ['"'] ++ s.toList.flatMap writeChar ++ ['"']

/-- A number. -/
def writeNumber : JsonNumber → List Char
  | .int i => intText i
  | .float x => floatText x

mutual

/-- A value without white space. -/
def writeCompact : Json → List Char
  | .null => "null".toList
  | .bool true => "true".toList
  | .bool false => "false".toList
  | .num n => writeNumber n
  | .str s => writeString s
  | .arr [] => ['[', ']']
  | .arr (v :: vs) => '[' :: (writeCompact v ++ compactItems vs)
  | .obj [] => ['\x7b', '\x7d']
  | .obj ((k, v) :: fs) =>
    '\x7b' :: (writeString k ++ [':'] ++ writeCompact v ++ compactMembers fs)

/-- The items behind the first and the closing bracket. -/
def compactItems : List Json → List Char
  | [] => [']']
  | v :: vs => ',' :: (writeCompact v ++ compactItems vs)

/-- The fields behind the first and the closing brace. -/
def compactMembers : List (String × Json) → List Char
  | [] => ['\x7d']
  | (k, v) :: fs => ',' :: (writeString k ++ [':'] ++ writeCompact v ++ compactMembers fs)

end

/-- The start of a line at a nesting depth. -/
def newLine (depth : Nat) : List Char := '\n' :: List.replicate (2 * depth) ' '

mutual

/-- A value on indented lines. -/
def writeIndented (depth : Nat) : Json → List Char
  | .null => "null".toList
  | .bool true => "true".toList
  | .bool false => "false".toList
  | .num n => writeNumber n
  | .str s => writeString s
  | .arr [] => ['[', ']']
  | .arr (v :: vs) =>
    '[' :: (newLine (depth + 1) ++ writeIndented (depth + 1) v ++ indentedItems depth vs)
  | .obj [] => ['\x7b', '\x7d']
  | .obj ((k, v) :: fs) =>
    '\x7b' :: (newLine (depth + 1) ++ writeString k ++ [':', ' '] ++ writeIndented (depth + 1) v ++
      indentedMembers depth fs)

/-- The items behind the first and the closing bracket. -/
def indentedItems (depth : Nat) : List Json → List Char
  | [] => newLine depth ++ [']']
  | v :: vs =>
    ',' :: (newLine (depth + 1) ++ writeIndented (depth + 1) v ++ indentedItems depth vs)

/-- The fields behind the first and the closing brace. -/
def indentedMembers (depth : Nat) : List (String × Json) → List Char
  | [] => newLine depth ++ ['\x7d']
  | (k, v) :: fs =>
    ',' :: (newLine (depth + 1) ++ writeString k ++ [':', ' '] ++ writeIndented (depth + 1) v ++
      indentedMembers depth fs)

end

/-- The compact text of a value. -/
def compact (v : Json) : String := String.ofList (writeCompact v)

/-- The indented text of a value. -/
def indented (v : Json) : String := String.ofList (writeIndented 0 v)

end BomAssembly.Json
