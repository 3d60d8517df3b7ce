import BomAssembly.Yaml.ScalarText

/-!
# Names in a YAML stream

Anchors and aliases, tags, and the directives in front of a document. A tag is written in full
between angle brackets, or as a handle and a suffix; the handle is `!`, or a name between two
exclamation marks.
-/

namespace BomAssembly.Yaml

open Text.Percent (hexValue?)

/-- The name of an anchor or alias: not empty, and followed by a blank or one of a few indicators. -/
def takeName (cs : List Char) (p : Position) : Option (Taken (List Char)) :=
  let name := cs.takeWhile isNameChar
  let rest := cs.drop name.length
  let ends := endsWord rest || rest.head?.any fun c => "?:,]\x7d%@\x60".toList.contains c
  if name.isEmpty || !ends then none else some ⟨name, rest, p.right name.length⟩

/-- A character of a tag; some only where the tag stands in full. -/
def isTagChar (full : Bool) (c : Char) : Bool :=
  isNameChar c || ";/?:@&=+$.%!~*'()".toList.contains c || (full && ",[]".toList.contains c)

/-- Whether every percent sign stands in front of two hexadecimal digits. -/
def escapesComplete : List Char → Bool
  | [] => true
  | '%' :: a :: b :: rest => (hexValue? a).isSome && (hexValue? b).isSome && escapesComplete rest
  | c :: rest => c != '%' && escapesComplete rest

/-- The characters of a tag, with escapes decoded. -/
def takeTagText (full : Bool) (cs : List Char) (p : Position) : Option (Taken (List Char)) := do
  let raw := cs.takeWhile (isTagChar full)
  let text ← if escapesComplete raw then Text.Percent.decode? raw else none
  some ⟨text, cs.drop raw.length, p.right raw.length⟩

/-- The handle in front of a tag's suffix, with what follows it. -/
def takeHandle (cs : List Char) : Option (List Char × List Char) :=
  match cs with
  | '!' :: rest =>
    let name := rest.takeWhile isNameChar
    match rest.drop name.length with
    | '!' :: more => some ('!' :: name ++ ['!'], more)
    | more => some ('!' :: name, more)
  | _ => none

/-- A tag, from its exclamation mark on. The tag `!` alone has no handle. -/
def takeTag (flow : Bool) (cs : List Char) (p : Position) :
    Option (Taken (List Char × List Char)) := do
  let found ←
    match cs with
    | '!' :: '<' :: rest => do
      let tag ← takeTagText true rest (p.right 2)
      match tag.rest with
      | '>' :: more =>
        if tag.value.isEmpty then none
        else some ⟨([], tag.value), more, tag.position.right 1⟩
      | _ => none
    | _ => do
      let (handle, rest) ← takeHandle cs
      let tag ← takeTagText false rest (p.right handle.length)
      if handle.length ≥ 2 && handle.getLast? == some '!' then
        if tag.value.isEmpty then none
        else some (⟨(handle, tag.value), tag.rest, tag.position⟩ : Taken (List Char × List Char))
      else
        let suffix := handle.drop 1 ++ tag.value
        if suffix.isEmpty then some ⟨([], ['!']), tag.rest, tag.position⟩
        else some ⟨(['!'], suffix), tag.rest, tag.position⟩
  let ends := endsWord found.rest || (flow && found.rest.head? == some ',')
  if ends then some found else none

/-- A number of a version: one to nine digits. -/
def takeVersionNumber (cs : List Char) : Option (Nat × List Char) :=
  let digits := cs.takeWhile Char.isDigit
  if digits.isEmpty || digits.length > 9 then none
  else some (digits.foldl (fun n c => n * 10 + (c.toNat - 48)) 0, cs.drop digits.length)

/-- A directive, from behind its percent sign on, with what follows its line. -/
def takeDirective (cs : List Char) (p : Position) : Option (Taken Token) := do
  let name := cs.takeWhile isNameChar
  let body := cs.drop name.length
  if !endsWord body then none
  else
    let body := body.dropWhile isSpacing
    let (token, rest) ←
      if name = "YAML".toList then do
        let (major, rest) ← takeVersionNumber body
        match rest with
        | '.' :: rest => do
          let (minor, rest) ← takeVersionNumber rest
          some (Token.version major minor, rest)
        | _ => none
      else if name = "TAG".toList then do
        let (handle, rest) ← takeHandle body
        if handle.length ≥ 2 && handle.getLast? != some '!' then none
        else if !(rest.head?.any isSpacing) then none
        else do
          let root ← takeTagText true (rest.dropWhile isSpacing) p
          if root.value.isEmpty || !endsWord root.rest then none
          else some (Token.tagHandle handle root.value, root.rest)
      else none
    let (rest, p) ← skipComment rest (p.right (cs.length - rest.length))
    some ⟨token, rest, p⟩

end BomAssembly.Yaml
