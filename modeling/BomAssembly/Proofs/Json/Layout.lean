import BomAssembly.Json.Reader
import BomAssembly.Json.Writer

/-!
# One text in several layouts

The two ways to write a value differ only in the white space between its parts. A `Layout` says what
white space that is, `spelled` is the text of a value in a layout, and the compact and the indented
text are the spellings in two of them. What is proved of spellings is proved of both.
-/

namespace BomAssembly.Json

/-- The white space of a text. -/
structure Layout where
  /-- In front of an item or a field of a container at a depth. -/
  before : Nat → List Char
  /-- In front of the bracket that closes a container at a depth. -/
  behind : Nat → List Char
  /-- Behind a colon. -/
  colon : List Char

/-- All of it is white space. -/
structure Layout.Blank (l : Layout) : Prop where
  before : ∀ depth, ∀ c ∈ l.before depth, isSpace c = true
  behind : ∀ depth, ∀ c ∈ l.behind depth, isSpace c = true
  colon : ∀ c ∈ l.colon, isSpace c = true

section

variable (l : Layout)

mutual

/-- The text of a value at a depth. -/
def spelled (depth : Nat) : Json → List Char
  | .null => "null".toList
  | .bool true => "true".toList
  | .bool false => "false".toList
  | .num n => writeNumber n
  | .str s => writeString s
  | .arr [] => ['[', ']']
  | .arr (v :: vs) => '[' :: (l.before depth ++ spelled (depth + 1) v ++ spelledItems depth vs)
  | .obj [] => ['\x7b', '\x7d']
  | .obj ((k, v) :: fs) =>
    '\x7b' :: (l.before depth ++ writeString k ++ ':' :: (l.colon ++ spelled (depth + 1) v) ++
      spelledMembers depth fs)

/-- The text of the items behind the first, and of the closing bracket. -/
def spelledItems (depth : Nat) : List Json → List Char
  | [] => l.behind depth ++ [']']
  | v :: vs => ',' :: (l.before depth ++ spelled (depth + 1) v ++ spelledItems depth vs)

/-- The text of the fields behind the first, and of the closing brace. -/
def spelledMembers (depth : Nat) : List (String × Json) → List Char
  | [] => l.behind depth ++ ['\x7d']
  | (k, v) :: fs =>
    ',' :: (l.before depth ++ writeString k ++ ':' :: (l.colon ++ spelled (depth + 1) v) ++
      spelledMembers depth fs)

end

end

/-! ## The two layouts that are written -/

/-- Nothing anywhere. -/
def Layout.compact : Layout := ⟨fun _ => [], fun _ => [], []⟩

/-- A line for every item, for every field and for every closing bracket. -/
def Layout.indented : Layout := ⟨fun depth => newLine (depth + 1), newLine, [' ']⟩

theorem Layout.blank_compact : Layout.compact.Blank where
  before _ _ hc := absurd hc List.not_mem_nil
  behind _ _ hc := absurd hc List.not_mem_nil
  colon _ hc := absurd hc List.not_mem_nil

theorem isSpace_of_mem_newLine {depth : Nat} {c : Char} (h : c ∈ newLine depth) :
    isSpace c = true := by
  rcases List.mem_cons.mp h with rfl | h
  · rfl
  · rw [(List.mem_replicate.mp h).2]
    rfl

theorem Layout.blank_indented : Layout.indented.Blank where
  before _ _ hc := isSpace_of_mem_newLine hc
  behind _ _ hc := isSpace_of_mem_newLine hc
  colon c hc := by
    rw [List.mem_singleton.mp hc]
    rfl

mutual

theorem writeCompact_eq (depth : Nat) (v : Json) :
    writeCompact v = spelled Layout.compact depth v := by
  match v with
  | .null => rfl
  | .bool true => rfl
  | .bool false => rfl
  | .num n => rfl
  | .str s => rfl
  | .arr [] => rfl
  | .arr (v :: vs) =>
      rw [writeCompact, spelled, writeCompact_eq (depth + 1) v, compactItems_eq depth vs]
      rfl
  | .obj [] => rfl
  | .obj ((k, v) :: fs) =>
      rw [writeCompact, spelled, writeCompact_eq (depth + 1) v, compactMembers_eq depth fs,
        List.append_assoc (writeString k)]
      rfl

theorem compactItems_eq (depth : Nat) (vs : List Json) :
    compactItems vs = spelledItems Layout.compact depth vs := by
  match vs with
  | [] => rfl
  | v :: vs =>
      rw [compactItems, spelledItems, writeCompact_eq (depth + 1) v, compactItems_eq depth vs]
      rfl

theorem compactMembers_eq (depth : Nat) (fs : List (String × Json)) :
    compactMembers fs = spelledMembers Layout.compact depth fs := by
  match fs with
  | [] => rfl
  | (k, v) :: fs =>
      rw [compactMembers, spelledMembers, writeCompact_eq (depth + 1) v,
        compactMembers_eq depth fs, List.append_assoc (writeString k)]
      rfl

end

mutual

theorem writeIndented_eq (depth : Nat) (v : Json) :
    writeIndented depth v = spelled Layout.indented depth v := by
  match v with
  | .null => rfl
  | .bool true => rfl
  | .bool false => rfl
  | .num n => rfl
  | .str s => rfl
  | .arr [] => rfl
  | .arr (v :: vs) =>
      rw [writeIndented, spelled, writeIndented_eq (depth + 1) v, indentedItems_eq depth vs]
      rfl
  | .obj [] => rfl
  | .obj ((k, v) :: fs) =>
      rw [writeIndented, spelled, writeIndented_eq (depth + 1) v, indentedMembers_eq depth fs,
        List.append_assoc (newLine (depth + 1) ++ writeString k)]
      rfl

theorem indentedItems_eq (depth : Nat) (vs : List Json) :
    indentedItems depth vs = spelledItems Layout.indented depth vs := by
  match vs with
  | [] => rfl
  | v :: vs =>
      rw [indentedItems, spelledItems, writeIndented_eq (depth + 1) v, indentedItems_eq depth vs]
      rfl

theorem indentedMembers_eq (depth : Nat) (fs : List (String × Json)) :
    indentedMembers depth fs = spelledMembers Layout.indented depth fs := by
  match fs with
  | [] => rfl
  | (k, v) :: fs =>
      rw [indentedMembers, spelledMembers, writeIndented_eq (depth + 1) v,
        indentedMembers_eq depth fs, List.append_assoc (newLine (depth + 1) ++ writeString k)]
      rfl

end

end BomAssembly.Json
