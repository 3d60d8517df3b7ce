/-!
# Fingerprints

The 64-bit XXH3 digest with seed zero, in 64-bit words that wrap. Inputs of up to 16, 128 and 240
bytes are mixed with a fixed secret in ways of their own. Longer ones are taken in stripes of eight
words into eight accumulators, which are scrambled after every sixteen stripes.
-/

namespace BomAssembly.Fingerprint

/-- The bytes that the input is mixed with. -/
def secret : Array UInt8 := #[
  0xb8, 0xfe, 0x6c, 0x39, 0x23, 0xa4, 0x4b, 0xbe, 0x7c, 0x01, 0x81, 0x2c, 0xf7, 0x21, 0xad, 0x1c,
  0xde, 0xd4, 0x6d, 0xe9, 0x83, 0x90, 0x97, 0xdb, 0x72, 0x40, 0xa4, 0xa4, 0xb7, 0xb3, 0x67, 0x1f,
  0xcb, 0x79, 0xe6, 0x4e, 0xcc, 0xc0, 0xe5, 0x78, 0x82, 0x5a, 0xd0, 0x7d, 0xcc, 0xff, 0x72, 0x21,
  0xb8, 0x08, 0x46, 0x74, 0xf7, 0x43, 0x24, 0x8e, 0xe0, 0x35, 0x90, 0xe6, 0x81, 0x3a, 0x26, 0x4c,
  0x3c, 0x28, 0x52, 0xbb, 0x91, 0xc3, 0x00, 0xcb, 0x88, 0xd0, 0x65, 0x8b, 0x1b, 0x53, 0x2e, 0xa3,
  0x71, 0x64, 0x48, 0x97, 0xa2, 0x0d, 0xf9, 0x4e, 0x38, 0x19, 0xef, 0x46, 0xa9, 0xde, 0xac, 0xd8,
  0xa8, 0xfa, 0x76, 0x3f, 0xe3, 0x9c, 0x34, 0x3f, 0xf9, 0xdc, 0xbb, 0xc7, 0xc7, 0x0b, 0x4f, 0x1d,
  0x8a, 0x51, 0xe0, 0x4b, 0xcd, 0xb4, 0x59, 0x31, 0xc8, 0x9f, 0x7e, 0xc9, 0xd9, 0x78, 0x73, 0x64,
  0xea, 0xc5, 0xac, 0x83, 0x34, 0xd3, 0xeb, 0xc3, 0xc5, 0x81, 0xa0, 0xff, 0xfa, 0x13, 0x63, 0xeb,
  0x17, 0x0d, 0xdd, 0x51, 0xb7, 0xf0, 0xda, 0x49, 0xd3, 0x16, 0x55, 0x26, 0x29, 0xd4, 0x68, 0x9e,
  0x2b, 0x16, 0xbe, 0x58, 0x7d, 0x47, 0xa1, 0xfc, 0x8f, 0xf8, 0xb8, 0xd1, 0x7a, 0xd0, 0x31, 0xce,
  0x45, 0xcb, 0x3a, 0x8f, 0x95, 0x16, 0x04, 0x28, 0xaf, 0xd7, 0xfb, 0xca, 0xbb, 0x4b, 0x40, 0x7e]

/-! ## The constants -/

def prime32a : UInt64 := 0x9E3779B1
def prime32b : UInt64 := 0x85EBCA77
def prime32c : UInt64 := 0xC2B2AE3D
def prime64a : UInt64 := 0x9E3779B185EBCA87
def prime64b : UInt64 := 0xC2B2AE3D27D4EB4F
def prime64c : UInt64 := 0x165667B19E3779F9
def prime64d : UInt64 := 0x85EBCA77C2B2AE63
def prime64e : UInt64 := 0x27D4EB2F165667C5
def mixA : UInt64 := 0x165667919E3779F9
def mixB : UInt64 := 0x9FB21C651E98DF25

/-! ## Words -/

/-- So many bytes from a place on, the least one first. -/
def bytesAt (data : Array UInt8) : Nat → Nat → UInt64
  | _, 0 => 0
  | i, n + 1 => (data.getD i 0).toUInt64 ||| (bytesAt data (i + 1) n <<< 8)

/-- The 64-bit word at a place. -/
def word (data : Array UInt8) (i : Nat) : UInt64 := bytesAt data i 8

/-- The 32-bit word at a place. -/
def half (data : Array UInt8) (i : Nat) : UInt64 := bytesAt data i 4

/-- A word with its bytes in the other order. -/
def swapped (x : UInt64) : UInt64 :=
  (List.range 8).foldl (fun acc i => (acc <<< 8) ||| ((x >>> (8 * i.toUInt64)) &&& 0xFF)) 0

/-- A word turned left. -/
def rotated (x n : UInt64) : UInt64 := (x <<< n) ||| (x >>> (64 - n))

/-- The two halves of a product, one over the other. -/
def foldedProduct (x y : UInt64) : UInt64 :=
  let p := x.toNat * y.toNat
  UInt64.ofNat (p % Nat.pow 2 64) ^^^ UInt64.ofNat (p / Nat.pow 2 64)

/-- A word over its own upper bits. -/
def shifted (x n : UInt64) : UInt64 := x ^^^ (x >>> n)

/-- The last mixing step of an input of more than eight bytes. -/
def finish (x : UInt64) : UInt64 := shifted (shifted x 37 * mixA) 32

/-- The last mixing step of an input of at most three bytes. -/
def finishShort (x : UInt64) : UInt64 :=
  shifted (shifted (shifted x 33 * prime64b) 29 * prime64c) 32

/-- Two words of the input, mixed with two of the secret. -/
def mixPair (data : Array UInt8) (i s : Nat) : UInt64 :=
  foldedProduct (word data i ^^^ word secret s) (word data (i + 8) ^^^ word secret (s + 8))

/-! ## Inputs of up to 240 bytes -/

/-- One to three bytes. -/
def ofUpTo3 (data : Array UInt8) (n : Nat) : UInt64 :=
  let byte (i : Nat) : UInt64 := (data.getD i 0).toUInt64
  let combined :=
    (byte 0 <<< 16) ||| (byte (n / 2) <<< 24) ||| byte (n - 1) ||| (n.toUInt64 <<< 8)
  finishShort (combined ^^^ (half secret 0 ^^^ half secret 4))

/-- Four to eight bytes. -/
def ofUpTo8 (data : Array UInt8) (n : Nat) : UInt64 :=
  let input := half data (n - 4) + (half data 0 <<< 32)
  let x := input ^^^ (word secret 8 ^^^ word secret 16)
  let x := (x ^^^ rotated x 49 ^^^ rotated x 24) * mixB
  shifted ((x ^^^ ((x >>> 35) + n.toUInt64)) * mixB) 28

/-- Nine to sixteen bytes. -/
def ofUpTo16 (data : Array UInt8) (n : Nat) : UInt64 :=
  let low := word data 0 ^^^ (word secret 24 ^^^ word secret 32)
  let high := word data (n - 8) ^^^ (word secret 40 ^^^ word secret 48)
  finish (n.toUInt64 + swapped low + high + foldedProduct low high)

/-- Pairs from both ends, moving inward. -/
def ofUpTo128 (data : Array UInt8) (n : Nat) : UInt64 :=
  let rounds := (n - 1) / 32 + 1
  finish ((List.range rounds).foldl (fun acc i =>
    acc + mixPair data (16 * i) (32 * i) + mixPair data (n - 16 * (i + 1)) (32 * i + 16))
    (n.toUInt64 * prime64a))

/-- Pairs from the front, the first eight mixed once more. -/
def ofUpTo240 (data : Array UInt8) (n : Nat) : UInt64 :=
  let first := (List.range 8).foldl (fun acc i => acc + mixPair data (16 * i) (16 * i))
    (n.toUInt64 * prime64a)
  let rest := (List.range (n / 16 - 8)).foldl
    (fun acc i => acc + mixPair data (16 * (i + 8)) (16 * i + 3)) (finish first)
  finish (rest + mixPair data (n - 16) 119)

/-! ## Longer inputs -/

/-- The eight accumulators. -/
abbrev Lanes := List UInt64

/-- The accumulators before the first stripe. -/
def Lanes.start : Lanes :=
  [prime32c, prime64a, prime64b, prime64c, prime64d, prime32b, prime64e, prime32a]

/-- Take in the stripe at a place, with the secret from a place on. -/
def Lanes.accumulate (data : Array UInt8) (i s : Nat) (acc : Lanes) : Lanes :=
  (List.range 8).zipWith (fun lane a =>
    let key := word data (i + 8 * lane) ^^^ word secret (s + 8 * lane)
    let neighbour := word data (i + 8 * (if lane % 2 = 0 then lane + 1 else lane - 1))
    a + neighbour + (key &&& (0xFFFFFFFF : UInt64)) * (key >>> 32)) acc

/-- Scramble the accumulators. -/
def Lanes.scramble (acc : Lanes) : Lanes :=
  (List.range 8).zipWith (fun lane a =>
    (shifted a 47 ^^^ word secret (128 + 8 * lane)) * prime32a) acc

/-- Take in so many stripes from a place on. -/
def Lanes.stripes (data : Array UInt8) (i count : Nat) (acc : Lanes) : Lanes :=
  (List.range count).foldl (fun acc k => acc.accumulate data (i + 64 * k) (8 * k)) acc

/-- The accumulators folded into one word. -/
def Lanes.merge (start : UInt64) : Nat → Lanes → UInt64
  | s, a :: b :: rest =>
    foldedProduct (a ^^^ word secret s) (b ^^^ word secret (s + 8)) + merge start (s + 16) rest
  | _, _ => start

/-- More than 240 bytes. -/
def ofLong (data : Array UInt8) (n : Nat) : UInt64 :=
  let blocks := (n - 1) / 1024
  let acc := (List.range blocks).foldl (fun (acc : Lanes) b =>
    (acc.stripes data (1024 * b) 16).scramble) Lanes.start
  let acc := acc.stripes data (1024 * blocks) ((n - 1 - 1024 * blocks) / 64)
  let acc := acc.accumulate data (n - 64) 121
  finish (acc.merge (n.toUInt64 * prime64a) 11)

/-! ## The digest -/

/-- The digest of some bytes. -/
def ofBytes (data : Array UInt8) : UInt64 :=
  let n := data.size
  if n = 0 then finishShort (word secret 56 ^^^ word secret 64)
  else if n ≤ 3 then ofUpTo3 data n
  else if n ≤ 8 then ofUpTo8 data n
  else if n ≤ 16 then ofUpTo16 data n
  else if n ≤ 128 then ofUpTo128 data n
  else if n ≤ 240 then ofUpTo240 data n
  else ofLong data n

/-- The digest of a text's UTF-8 form. -/
def ofText (s : String) : UInt64 := ofBytes s.toUTF8.data

/-- A word in sixteen hexadecimal digits. -/
def hex (x : UInt64) : String :=
  let ds := Nat.toDigits 16 x.toNat
  String.ofList (List.replicate (16 - ds.length) '0' ++ ds)

end BomAssembly.Fingerprint
