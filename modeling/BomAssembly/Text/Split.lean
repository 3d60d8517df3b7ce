/-!
# Cutting text

A text is cut at a single character: into all its pieces, or in two at the first or the last
occurrence. Nothing is lost: the pieces joined by the separator are the text again.
-/

namespace BomAssembly.Text

/-- The pieces between the separators; a text without one is its only piece. -/
def pieces (sep : Char) : List Char → List (List Char)
  | [] => [[]]
  | c :: rest =>
    match pieces sep rest with
    | [] => [[]]
    | piece :: more => if c = sep then [] :: piece :: more else (c :: piece) :: more

/-- The texts joined by a separator. -/
def joined (sep : List Char) : List (List Char) → List Char
  | [] => []
  | [piece] => piece
  | piece :: more => piece ++ sep ++ joined sep more

/-- What stands before and after the first separator. -/
def cutFirst (sep : Char) : List Char → Option (List Char × List Char)
  | [] => none
  | c :: rest =>
    if c = sep then some ([], rest) else (cutFirst sep rest).map fun (a, b) => (c :: a, b)

/-- What stands before and after the last separator. -/
def cutLast (sep : Char) : List Char → Option (List Char × List Char)
  | [] => none
  | c :: rest =>
    match cutLast sep rest with
    | some (a, b) => some (c :: a, b)
    | none => if c = sep then some ([], rest) else none

/-- Whether `part` occurs in the text. -/
def occurs (part : List Char) : List Char → Bool
  | [] => part.isEmpty
  | c :: rest => part.isPrefixOf (c :: rest) || occurs part rest

/-- `occurs` on strings. -/
def contains (s part : String) : Bool := occurs part.toList s.toList

/-- Whether a text begins with another. -/
def startsWith (s start : String) : Bool := start.toList.isPrefixOf s.toList

/-- The text with every occurrence of `old`, found from the left and without overlap, replaced. The
first number counts the characters that still belong to an occurrence. -/
def replaceFrom (old new : List Char) : Nat → List Char → List Char
  | _, [] => []
  | skip + 1, _ :: rest => replaceFrom old new skip rest
  | 0, c :: rest =>
    if old.isPrefixOf (c :: rest) then new ++ replaceFrom old new (old.length - 1) rest
    else c :: replaceFrom old new 0 rest

/-- A text that is not empty, replaced everywhere in another. -/
def replaced (s old new : String) : String :=
  String.ofList (replaceFrom old.toList new.toList 0 s.toList)

/-! ## Nothing is lost -/

theorem pieces_ne_nil (sep : Char) (cs : List Char) : pieces sep cs ≠ [] := by
  cases cs with
  | nil => simp [pieces]
  | cons c rest =>
    unfold pieces
    split
    · simp
    · split <;> simp

theorem joined_cons_cons (sep a b : List Char) (r : List (List Char)) :
    joined sep (a :: b :: r) = a ++ sep ++ joined sep (b :: r) := rfl

theorem joined_pieces (sep : Char) (cs : List Char) : joined [sep] (pieces sep cs) = cs := by
  induction cs with
  | nil => rfl
  | cons c rest ih =>
    unfold pieces
    split
    · next h => exact absurd h (pieces_ne_nil sep rest)
    · next piece more h =>
      rw [h] at ih
      split
      · next hc => subst hc; rw [joined_cons_cons, ih]; rfl
      · cases more with
        | nil => simpa [joined] using ih
        | cons b r => simpa [joined] using ih

end BomAssembly.Text
