import BomAssembly.FilePath
import BomAssembly.Text.Split
import Mathlib.Data.List.Basic

/-!
# When two paths are the same

Steps of one dot and empty steps mean nothing, so two paths lead to one place when both start from the
root or neither does, and the other steps are the same (`SameFile`). Comparing components asks for more:
a dot at the start of a relative path counts as a component (`same_iff`).
-/

namespace BomAssembly.FilePath

open Text (pieces pieces_ne_nil)

/-- The steps of a path that mean something. -/
def names (path : List Char) : List (List Char) := (pieces '/' path).filter fun p => !isIdle p

/-- A path that starts from the root. -/
def IsAbsolute (path : List Char) : Prop := path.head? = some '/'

/-- A relative path whose first step is a dot. -/
def StartsHere (path : List Char) : Prop := (pieces '/' path).head? = some ['.']

instance (path : List Char) : Decidable (IsAbsolute path) := by
  unfold IsAbsolute
  infer_instance

instance (path : List Char) : Decidable (StartsHere path) := by
  unfold StartsHere
  infer_instance

/-- Two paths that name one file where there are no links: they differ in nothing but steps of one
dot, and slashes that are repeated or stand at the end. -/
structure SameFile (p q : String) : Prop where
  start : IsAbsolute p.toList ↔ IsAbsolute q.toList
  names : names p.toList = names q.toList

/-- The component of a step that means something. -/
def componentOf (piece : List Char) : Component :=
  if piece = ['.', '.'] then .up else .name piece

/-- The component in front of all steps, if there is one. -/
def lead (path : List Char) : Option Component :=
  if IsAbsolute path then some .root else if StartsHere path then some .here else none

theorem stepOf_eq (piece : List Char) :
    stepOf piece = if isIdle piece then none else some (componentOf piece) := by
  unfold stepOf componentOf
  split
  · rfl
  · split <;> rfl

theorem filterMap_stepOf (ps : List (List Char)) :
    ps.filterMap stepOf = (ps.filter fun p => !isIdle p).map componentOf := by
  induction ps with
  | nil => rfl
  | cons p ps ih =>
      rw [List.filterMap_cons, List.filter_cons, stepOf_eq]
      cases isIdle p with
      | true => exact ih
      | false => exact congrArg _ ih

theorem not_startsHere_of_isAbsolute {path : List Char} (h : IsAbsolute path) :
    ¬ StartsHere path := by
  obtain ⟨more, rfl⟩ : ∃ more, path = '/' :: more := by
    cases path with
    | nil => exact absurd h (by simp [IsAbsolute])
    | cons c more => exact ⟨more, by rw [Option.some.inj h]⟩
  unfold StartsHere
  rw [pieces]
  split <;> simp

/-- **The components of a path** are its steps, behind the root or the dot that it starts with. -/
theorem components_eq (path : List Char) :
    components path = (lead path).toList ++ (names path).map componentOf := by
  obtain ⟨first, rest, hpieces⟩ := List.exists_cons_of_ne_nil (pieces_ne_nil '/' path)
  have hhere : StartsHere path ↔ first = ['.'] := by
    rw [StartsHere, hpieces, List.head?_cons, Option.some_inj]
  have hroot : IsAbsolute path → first = [] := by
    intro h
    cases path with
    | nil => exact absurd h (by simp [IsAbsolute])
    | cons c more =>
        obtain rfl := Option.some.inj h
        rw [pieces] at hpieces
        split at hpieces
        · exact (List.cons.inj hpieces).1.symm
        · rw [if_pos rfl] at hpieces
          exact (List.cons.inj hpieces).1.symm
  have hfirst : firstStep path first
      = if IsAbsolute path then some .root else if first = ['.'] then some .here
        else stepOf first := rfl
  rw [components, hpieces]
  dsimp only
  rw [filterMap_stepOf, names, hpieces, List.filter_cons, hfirst, lead]
  by_cases habsolute : IsAbsolute path
  · have hidle : isIdle first = true := by rw [hroot habsolute]; rfl
    rw [if_pos habsolute, if_pos habsolute, hidle]
    rfl
  · rw [if_neg habsolute, if_neg habsolute]
    by_cases hdot : first = ['.']
    · rw [if_pos hdot, if_pos (hhere.mpr hdot), hdot]
      rfl
    · rw [if_neg hdot, if_neg (mt hhere.mp hdot), stepOf_eq]
      cases isIdle first <;> rfl

/-- What is in front of the steps is no step. -/
theorem lead_ne_componentOf {path : List Char} (piece : List Char) :
    lead path ≠ some (componentOf piece) := by
  unfold lead componentOf
  split
  · split <;> simp
  · split
    · split <;> simp
    · simp

theorem componentOf_injective : Function.Injective componentOf := by
  intro p q h
  unfold componentOf at h
  split at h
  · next hp =>
    split at h
    · next hq => rw [hp, hq]
    · exact absurd h (by simp)
  · split at h
    · exact absurd h (by simp)
    · exact Component.name.inj h

theorem lead_eq_iff {p q : List Char} :
    lead p = lead q ↔ (IsAbsolute p ↔ IsAbsolute q) ∧ (StartsHere p ↔ StartsHere q) := by
  have hp : IsAbsolute p → ¬ StartsHere p := not_startsHere_of_isAbsolute
  have hq : IsAbsolute q → ¬ StartsHere q := not_startsHere_of_isAbsolute
  unfold lead
  by_cases hp' : IsAbsolute p <;> by_cases hq' : IsAbsolute q <;>
    by_cases hhp : StartsHere p <;> by_cases hhq : StartsHere q <;> simp_all

/-- Steps behind a root or a dot are told apart from it. -/
theorem toList_append_inj {a b : Option Component} {as bs : List Component}
    (ha : ∀ c ∈ bs, a ≠ some c) (hb : ∀ c ∈ as, b ≠ some c)
    (h : a.toList ++ as = b.toList ++ bs) : a = b ∧ as = bs := by
  cases a with
  | none =>
      cases b with
      | none => exact ⟨rfl, h⟩
      | some b =>
          have hmem : as = b :: bs := h
          exact absurd rfl (hb b (hmem ▸ List.mem_cons_self))
  | some a =>
      cases b with
      | none =>
          have hmem : a :: as = bs := h
          exact absurd rfl (ha a (hmem ▸ List.mem_cons_self))
      | some b =>
          obtain ⟨hab, hmore⟩ := List.cons.inj h
          exact ⟨congrArg some hab, hmore⟩

/-- **When two paths have the same components**: they name one file, and both begin with a dot or
neither does. -/
theorem same_iff {p q : String} :
    Same p q ↔ SameFile p q ∧ (StartsHere p.toList ↔ StartsHere q.toList) := by
  have hapart : ∀ (path : List Char) (steps : List (List Char)),
      ∀ c ∈ steps.map componentOf, lead path ≠ some c := by
    intro path steps c hc
    obtain ⟨piece, -, rfl⟩ := List.mem_map.mp hc
    exact lead_ne_componentOf piece
  rw [Same, components_eq, components_eq]
  constructor
  · intro h
    obtain ⟨hlead, hsteps⟩ := toList_append_inj (hapart _ _) (hapart _ _) h
    obtain ⟨hstart, hhere⟩ := lead_eq_iff.mp hlead
    exact ⟨⟨hstart, List.map_injective_iff.mpr componentOf_injective hsteps⟩, hhere⟩
  · rintro ⟨⟨hstart, hnames⟩, hhere⟩
    rw [lead_eq_iff.mpr ⟨hstart, hhere⟩, hnames]

end BomAssembly.FilePath
