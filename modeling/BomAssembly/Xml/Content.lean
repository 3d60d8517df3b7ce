import BomAssembly.Text.Percent
import BomAssembly.Xml.Reader

/-!
# What an element holds

An element that is looked into has its attributes taken apart and its text put together:

* neighbouring texts and literal texts become one, asides between them notwithstanding;
* white space next to a tag is dropped, white space next to a literal text stays;
* references are replaced, in texts by what they stand for; an unknown one is an error, but only in
  an element that is looked into.

An element marked as nil, through the attribute `nil` of the schema instance namespace, holds nothing
as far as optional fields are concerned.
-/

namespace BomAssembly.Xml

/-! ## References -/

/-- A character by its number. -/
def charByNumber (cs : List Char) : Option Char :=
  let (radix, digits) := match cs with
    | 'x' :: rest => (16, rest)
    | rest => (10, rest)
  let value := digits.foldl (fun (acc : Option Nat) c =>
    match acc, Text.Percent.hexValue? c with
    | some a, some d => if d < radix ∧ a < 0x110000 then some (a * radix + d) else none
    | _, _ => none) (some 0)
  match digits, value with
  | [], _ => none
  | _, some n => if n ≠ 0 ∧ (n < 0xD800 ∨ (0xDFFF < n ∧ n < 0x110000)) then some (Char.ofNat n) else none
  | _, none => none

/-- What a reference stands for. -/
def reference? (name : List Char) : Option Char :=
  match name with
  | '#' :: number => charByNumber number
  | _ =>
    if name = "lt".toList then some '<'
    else if name = "gt".toList then some '>'
    else if name = "amp".toList then some '&'
    else if name = "apos".toList then some '\''
    else if name = "quot".toList then some '"'
    else none

/-- The text with its references replaced; `name` is the reference that is open, last character
first. -/
def expand (name : Option (List Char)) : List Char → Option (List Char)
  | [] => if name.isSome then none else some []
  | c :: rest =>
    match name with
    | none => if c = '&' then expand (some []) rest else (expand none rest).map (c :: ·)
    | some n =>
      if c = ';' then
        match reference? n.reverse with
        | some x => (expand none rest).map (x :: ·)
        | none => none
      else if c = '&' then none
      else expand (some (c :: n)) rest

/-! ## Text -/

/-- Content of an element: elements and the texts between them. -/
inductive Content where
  | element (name attributes : List Char) (children : List Node)
  | text (value : List Char)
  deriving Inhabited

/-- A run of texts without the white space that touches the tag in front. -/
def dropLeadingSpace : List (Bool × List Char) → List (Bool × List Char)
  | (true, raw) :: rest =>
    match raw.dropWhile isSpace with
    | [] => dropLeadingSpace rest
    | raw => (true, raw) :: rest
  | run => run

/-- The value of a run of texts that ends at a tag. -/
def runText : List (Bool × List Char) → Option (List Char)
  | [] => some []
  | (false, raw) :: rest => (runText rest).map (raw ++ ·)
  | (true, raw) :: rest => do
    let text ← expand none (if rest.isEmpty then dropEndSpace raw else raw)
    let more ← runText rest
    return text ++ more

/-- The text of a run, if there is any. -/
def runContent (run : List (Bool × List Char)) : Option (List Content) :=
  match dropLeadingSpace run with
  | [] => some []
  | run => (runText run).map fun t => [.text t]

/-- The content of an element; `run` holds the texts since the last tag, last first. -/
def contentsAfter (run : List (Bool × List Char)) : List Node → Option (List Content)
  | [] => runContent run.reverse
  | .text raw :: rest => contentsAfter ((true, raw) :: run) rest
  | .literal raw :: rest => contentsAfter ((false, raw) :: run) rest
  | .doctype :: rest => do
    let before ← runContent run.reverse
    let after ← contentsAfter [] rest
    return before ++ after
  | .element n a cs :: rest => do
    let before ← runContent run.reverse
    let after ← contentsAfter [] rest
    return before ++ .element n a cs :: after

/-- The content of an element that is looked into. -/
def contents (children : List Node) : Option (List Content) := contentsAfter [] children

/-- The text of an element that holds nothing else. -/
def textOf (children : List Node) : Option String :=
  match contents children with
  | some [] => some ""
  | some [.text t] => some (String.ofList t)
  | _ => none

/-! ## Attributes -/

/-- The first attribute of a text, its value still with references, and what follows it. -/
def nextAttribute (cs : List Char) : Option ((List Char × List Char) × List Char) :=
  match cs with
  | [] => none
  | first :: rest =>
    let name := first :: rest.takeWhile fun c => c ≠ '=' && !isSpace c
    match (rest.dropWhile fun c => c ≠ '=' && !isSpace c).dropWhile isSpace with
    | '=' :: rest =>
      match rest.dropWhile isSpace with
      | q :: rest =>
        if q = '"' ∨ q = '\'' then
          (Text.cutFirst q rest).map fun (value, rest) => ((name, value), rest)
        else none
      | [] => none
    | _ => none

/-- The attributes of an element; an attribute may not be written twice. -/
def attributesFrom : Nat → List (List Char) → List Char → Option (List (List Char × List Char))
  | 0, _, _ => none
  | n + 1, seen, cs =>
    match cs.dropWhile isSpace with
    | [] => some []
    | cs =>
      match nextAttribute cs with
      | none => none
      | some ((name, value), rest) =>
        if name ∈ seen then none
        else (attributesFrom n (name :: seen) rest).map ((name, value) :: ·)

/-- The attributes of an element that is looked into. -/
def attributes (cs : List Char) : Option (List (List Char × List Char)) :=
  attributesFrom (cs.length + 1) [] cs

/-- The attributes up to the first that is malformed. -/
def attributesUpTo : Nat → List Char → List (List Char × List Char)
  | 0, _ => []
  | n + 1, cs =>
    match cs.dropWhile isSpace with
    | [] => []
    | cs =>
      match nextAttribute cs with
      | none => []
      | some (a, rest) => a :: attributesUpTo n rest

/-- Whether the attribute binds a namespace. -/
def bindsNamespace (name : List Char) : Bool :=
  name = "xmlns".toList || "xmlns:".toList.isPrefixOf name

/-- The name by which a field takes an attribute: a mark in front, and the local name. -/
def attributeKey (name : List Char) : String :=
  String.ofList ('@' :: (if bindsNamespace name then name else localName name))

/-! ## Nil elements -/

/-- Namespace marks and what they are bound to, innermost first. -/
abbrev Scope := List (List Char × List Char)

/-- The scope inside an element. -/
def Scope.enter (scope : Scope) (attributes : List Char) : Scope :=
  ((attributesUpTo (attributes.length + 1) attributes).filterMap fun (name, value) =>
    if "xmlns:".toList.isPrefixOf name then some (name.drop 6, value) else none).reverse ++ scope

/-- The namespace of the attribute that marks an element as nil. -/
def instanceNamespace : List Char := "http://www.w3.org/2001/XMLSchema-instance".toList

/-- Whether an element is marked as nil. -/
def isNil (scope : Scope) (attributes : List Char) : Bool :=
  (attributesUpTo (attributes.length + 1) attributes).any fun (name, value) =>
    match Text.cutFirst ':' name with
    | some (mark, rest) =>
      rest = "nil".toList && scope.lookup mark = some instanceNamespace &&
        (value = "true".toList || value = ['1'])
    | none => false

end BomAssembly.Xml
