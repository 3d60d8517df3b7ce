import BomAssembly.Json.NumberText

/-!
# Reading JSON texts

A text is one value with white space around it. Containers may be nested 127 deep. A string is
written with the usual escapes; an escaped surrogate has to be half of a pair, and control characters
are escaped.

A reader that knows what it wants says so by a `Shape`. A field that the shape of a record does not
name is skipped: it has to be well formed, but its numbers may be of any size, its strings may hold
half pairs, and it may be nested at any depth.
-/

namespace BomAssembly.Json

/-- What a reader wants of a value. -/
inductive Shape where
  /-- The whole value. -/
  | any
  /-- The named fields of an object. -/
  | record (fields : List (String × Shape))
  /-- The items of an array. -/
  | list (item : Shape)

/-- The shape of a field of a record; none when the field is skipped. -/
def Shape.field? : Shape → String → Option Shape
  | record fields, name => fields.lookup name
  | _, _ => some any

/-- The shapes of the first item of an array and of the array behind it; a record has its fields in
order. -/
def Shape.items : Shape → Shape × Shape
  | list s => (s, list s)
  | record ((_, s) :: fields) => (s, record fields)
  | _ => (any, any)

/-- The white space of JSON. -/
def isSpace (c : Char) : Bool := c == ' ' || c == '\n' || c == '\t' || c == '\r'

/-- The text without white space in front. -/
def skipSpace (cs : List Char) : List Char := cs.dropWhile isSpace

/-- The value of four hexadecimal digits. -/
def hex4? (a b c d : Char) : Option Nat := do
  let digit (c : Char) : Option Nat :=
    if '0' ≤ c ∧ c ≤ '9' then some (c.toNat - 48)
    else if 'A' ≤ c ∧ c ≤ 'F' then some (c.toNat - 55)
    else if 'a' ≤ c ∧ c ≤ 'f' then some (c.toNat - 87)
    else none
  return (((← digit a) * 16 + (← digit b)) * 16 + (← digit c)) * 16 + (← digit d)

/-- What a one-letter escape stands for. -/
def escaped? : Char → Option Char
  | '"' => some '"'
  | '\\' => some '\\'
  | '/' => some '/'
  | 'b' => some '\x08'
  | 'f' => some '\x0c'
  | 'n' => some '\n'
  | 'r' => some '\r'
  | 't' => some '\t'
  | _ => none

/-- The first half of a surrogate pair. -/
def isHighHalf (n : Nat) : Bool := 0xD800 ≤ n && n ≤ 0xDBFF

/-- The second half of a surrogate pair. -/
def isLowHalf (n : Nat) : Bool := 0xDC00 ≤ n && n ≤ 0xDFFF

/-- The character of a surrogate pair. -/
def pairChar (high low : Nat) : Char := Char.ofNat (0x10000 + (high - 0xD800) * 0x400 + (low - 0xDC00))

/-- The rest of a string behind its opening quote, and what follows the closing one. -/
def stringBody : List Char → Option (List Char × List Char)
  | [] => none
  | '"' :: rest => some ([], rest)
  | '\\' :: 'u' :: a :: b :: c :: d :: '\\' :: 'u' :: e :: f :: g :: h :: rest =>
    match hex4? a b c d with
    | none => none
    | some high =>
      if isHighHalf high then
        match hex4? e f g h with
        | none => none
        | some low =>
          if isLowHalf low then
            (stringBody rest).map fun (s, r) => (pairChar high low :: s, r)
          else none
      else if isLowHalf high then none
      else (stringBody ('\\' :: 'u' :: e :: f :: g :: h :: rest)).map
        fun (s, r) => (Char.ofNat high :: s, r)
  | '\\' :: 'u' :: a :: b :: c :: d :: rest =>
    match hex4? a b c d with
    | none => none
    | some n =>
      if isHighHalf n || isLowHalf n then none
      else (stringBody rest).map fun (s, r) => (Char.ofNat n :: s, r)
  | '\\' :: c :: rest =>
    match escaped? c with
    | none => none
    | some x => (stringBody rest).map fun (s, r) => (x :: s, r)
  | c :: rest =>
    if c.toNat < 0x20 || c == '\\' then none
    else (stringBody rest).map fun (s, r) => (c :: s, r)

/-- What follows the closing quote of a string whose content is not wanted. -/
def skipString : List Char → Option (List Char)
  | [] => none
  | '"' :: rest => some rest
  | '\\' :: 'u' :: a :: b :: c :: d :: rest =>
    if (hex4? a b c d).isSome then skipString rest else none
  | '\\' :: c :: rest => if (escaped? c).isSome then skipString rest else none
  | c :: rest => if c.toNat < 0x20 || c == '\\' then none else skipString rest

/-- What follows a word in front of a text. -/
def dropWord (word : List Char) (cs : List Char) : Option (List Char) :=
  if word.isPrefixOf cs then some (cs.drop word.length) else none

mutual

/-- What follows a value that is not wanted. -/
def skipValue : Nat → List Char → Option (List Char)
  | 0, _ => none
  | n + 1, cs =>
    match skipSpace cs with
    | '"' :: rest => skipString rest
    | '[' :: rest =>
      match skipSpace rest with
      | ']' :: rest => some rest
      | rest => skipItems n rest
    | '\x7b' :: rest =>
      match skipSpace rest with
      | '\x7d' :: rest => some rest
      | rest => skipMembers n rest
    | 'n' :: rest => dropWord "ull".toList rest
    | 't' :: rest => dropWord "rue".toList rest
    | 'f' :: rest => dropWord "alse".toList rest
    | cs => (takeNumber cs).map Prod.snd

/-- What follows the items of an array that is not wanted. -/
def skipItems : Nat → List Char → Option (List Char)
  | 0, _ => none
  | n + 1, cs =>
    match skipValue n cs with
    | none => none
    | some rest =>
      match skipSpace rest with
      | ']' :: rest => some rest
      | ',' :: rest => skipItems n rest
      | _ => none

/-- What follows the members of an object that is not wanted. -/
def skipMembers : Nat → List Char → Option (List Char)
  | 0, _ => none
  | n + 1, cs =>
    match skipSpace cs with
    | '"' :: rest =>
      match skipString rest with
      | none => none
      | some rest =>
        match skipSpace rest with
        | ':' :: rest =>
          match skipValue n rest with
          | none => none
          | some rest =>
            match skipSpace rest with
            | '\x7d' :: rest => some rest
            | ',' :: rest => skipMembers n rest
            | _ => none
        | _ => none
    | _ => none

end

mutual

/-- A value in front of a text; `depth` more containers may be opened. -/
def takeValue : Nat → Nat → Shape → List Char → Option (Json × List Char)
  | 0, _, _, _ => none
  | n + 1, depth, shape, cs =>
    match skipSpace cs with
    | '"' :: rest => (stringBody rest).map fun (s, r) => (.str (String.ofList s), r)
    | '[' :: rest =>
      if depth = 0 then none
      else match skipSpace rest with
        | ']' :: rest => some (.arr [], rest)
        | rest => (takeItems n (depth - 1) shape rest).map fun (v, r) => (.arr v, r)
    | '\x7b' :: rest =>
      if depth = 0 then none
      else match skipSpace rest with
        | '\x7d' :: rest => some (.obj [], rest)
        | rest => (takeMembers n (depth - 1) shape rest).map fun (v, r) => (.obj v, r)
    | 'n' :: rest => (dropWord "ull".toList rest).map fun r => (.null, r)
    | 't' :: rest => (dropWord "rue".toList rest).map fun r => (.bool true, r)
    | 'f' :: rest => (dropWord "alse".toList rest).map fun r => (.bool false, r)
    | cs =>
      match takeNumber cs with
      | none => none
      | some (t, rest) => t.value?.map fun v => (.num v, rest)

/-- The items of an array up to its closing bracket. -/
def takeItems : Nat → Nat → Shape → List Char → Option (List Json × List Char)
  | 0, _, _, _ => none
  | n + 1, depth, shape, cs =>
    match takeValue n depth shape.items.1 cs with
    | none => none
    | some (v, rest) =>
      match skipSpace rest with
      | ']' :: rest => some ([v], rest)
      | ',' :: rest => (takeItems n depth shape.items.2 rest).map fun (vs, r) => (v :: vs, r)
      | _ => none

/-- The members of an object up to its closing brace, as often as they are written. -/
def takeMembers : Nat → Nat → Shape → List Char → Option (List (String × Json) × List Char)
  | 0, _, _, _ => none
  | n + 1, depth, shape, cs =>
    match skipSpace cs with
    | '"' :: rest =>
      match stringBody rest with
      | none => none
      | some (name, rest) =>
        let name := String.ofList name
        match skipSpace rest with
        | ':' :: rest =>
          let value := match shape.field? name with
            | some s => (takeValue n depth s rest).map fun (v, r) => ([(name, v)], r)
            | none => (skipValue n rest).map fun r => ([], r)
          match value with
          | none => none
          | some (field, rest) =>
            match skipSpace rest with
            | '\x7d' :: rest => some (field, rest)
            | ',' :: rest => (takeMembers n depth shape rest).map fun (fs, r) => (field ++ fs, r)
            | _ => none
        | _ => none
    | _ => none

end

/-- How deep containers may be nested. -/
def maxDepth : Nat := 127

/-- The value of a text as it is written: a field written twice is there twice. -/
def readWritten (shape : Shape) (s : String) : Option Json :=
  let cs := s.toList
  match takeValue (2 * cs.length + 2) maxDepth shape cs with
  | some (v, rest) => if (skipSpace rest).isEmpty then some v else none
  | none => none

mutual

/-- The value with each field once: the last one written, in the place of the first. -/
def merged : Json → Json
  | .arr items => .arr (mergedItems items)
  | .obj fields => .obj (mergeFields (mergedMembers fields))
  | v => v

/-- `merged` on each item. -/
def mergedItems : List Json → List Json
  | [] => []
  | v :: vs => merged v :: mergedItems vs

/-- `merged` on the value of each field. -/
def mergedMembers : List (String × Json) → List (String × Json)
  | [] => []
  | (k, v) :: fs => (k, merged v) :: mergedMembers fs

end

end BomAssembly.Json
