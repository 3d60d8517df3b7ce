/-!
# Percent encoding

Each byte of the UTF-8 form that is not kept is written as a percent sign and two upper-case
hexadecimal digits. Decoding reads either case of digit, leaves a percent sign that starts no escape
as it is, and fails when the bytes are not UTF-8.
-/

namespace BomAssembly.Text.Percent

/-- Letters, digits and the four marks that never need an escape. -/
def isPlain (c : Char) : Bool :=
  c.isAlphanum || c == '.' || c == '-' || c == '_' || c == '~'

/-- The digit for a value below sixteen. -/
def hexDigit (n : Nat) : Char :=
  if n < 10 then Char.ofNat (48 + n) else Char.ofNat (55 + n)

/-- The value of a hexadecimal digit. -/
def hexValue? (c : Char) : Option Nat :=
  if '0' ≤ c ∧ c ≤ '9' then some (c.toNat - 48)
  else if 'A' ≤ c ∧ c ≤ 'F' then some (c.toNat - 55)
  else if 'a' ≤ c ∧ c ≤ 'f' then some (c.toNat - 87)
  else none

/-- One byte as an escape. -/
def escapeByte (b : UInt8) : List Char :=
  ['%', hexDigit (b.toNat / 16), hexDigit (b.toNat % 16)]

/-- One character, kept or as the escapes of its bytes. -/
def encodeChar (keep : Char → Bool) (c : Char) : List Char :=
  if isPlain c || keep c then [c] else (String.utf8EncodeChar c).flatMap escapeByte

/-- The encoded text; the characters that `keep` accepts stay as they are. -/
def encode (keep : Char → Bool) (cs : List Char) : List Char := cs.flatMap (encodeChar keep)

/-- The bytes that a text with escapes stands for. -/
def bytes : List Char → List UInt8
  | [] => []
  | [c] => String.utf8EncodeChar c
  | [c, d] => String.utf8EncodeChar c ++ String.utf8EncodeChar d
  | c :: h :: l :: rest =>
    if c = '%' then
      match hexValue? h, hexValue? l with
      | some hi, some lo => UInt8.ofNat (hi * 16 + lo) :: bytes rest
      | _, _ => String.utf8EncodeChar c ++ bytes (h :: l :: rest)
    else String.utf8EncodeChar c ++ bytes (h :: l :: rest)

/-- The decoded text, or nothing when the bytes are not UTF-8. -/
def decode? (cs : List Char) : Option (List Char) :=
  (ByteArray.utf8Decode? (ByteArray.mk (bytes cs).toArray)).map Array.toList

end BomAssembly.Text.Percent
