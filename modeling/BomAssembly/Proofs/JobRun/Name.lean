import BomAssembly.JobRun.Name
import BomAssembly.Proofs.Number.Spelling
import BomAssembly.Proofs.Text.Cutting

/-!
# Names of job runs, taken apart

The name of a job run is the start that its family shares and the digits of its index. Neither digits
nor the names of phases hold a dash, so the name is taken apart from the right: the index is read back
from behind the last dash (`indexOf?_nameOf`), and the name tells request, phase and index
(`nameOf_inj`).
-/

namespace BomAssembly.JobRun

/-- What the names of the job runs in a family begin with. -/
def start (request : String) (phase : Phase) : String := s!"{family request phase}-"

theorem toList_family (request : String) (phase : Phase) : (family request phase).toList =
    request.toList ++ ['-'] ++ Nat.toDigits 10 phase.ordinal ++ ['-'] ++ phase.name.toList := by
  simp [family, toString, Nat.toList_repr]

theorem toList_start (request : String) (phase : Phase) :
    (start request phase).toList = (family request phase).toList ++ ['-'] := by
  simp [start, toString]

theorem toList_nameOf (request : String) (phase : Phase) (index : Nat) :
    (nameOf request phase index).toList = (start request phase).toList ++ Nat.toDigits 10 index := by
  simp [nameOf, start, toString, Nat.toList_repr]

theorem startsWith_nameOf (request : String) (phase : Phase) (index : Nat) :
    Text.startsWith (nameOf request phase index) (start request phase) = true := by
  rw [Text.startsWith, toList_nameOf, List.isPrefixOf_iff_prefix]
  exact List.prefix_append _ _

/-! ## No part of a name but the request's holds a dash -/

theorem not_dashed_of_spells {i : Nat} {digits : List Char} (h : Number.Spells i digits) :
    '-' ∉ digits := by
  obtain ⟨plus, zeros, hplus, rfl⟩ := h
  intro hmem
  rcases List.mem_append.mp hmem with hmem | hmem
  · rcases hplus with rfl | rfl
    · exact absurd hmem List.not_mem_nil
    · exact absurd (List.mem_singleton.mp hmem) (by decide)
  · exact absurd (Number.isDigit_of_mem_spelled hmem) (by decide)

theorem not_dashed_of_digits (n : Nat) : '-' ∉ Nat.toDigits 10 n :=
  not_dashed_of_spells (Number.spells_toDigits n)

theorem ordinal_not_dashed (phase : Phase) : '-' ∉ Nat.toDigits 10 phase.ordinal :=
  not_dashed_of_digits phase.ordinal

theorem name_not_dashed (phase : Phase) : '-' ∉ phase.name.toList := by
  cases phase <;> decide

/-! ## What a name tells -/

section

variable {request other : String} {phase phase' : Phase} {i j : Nat}

theorem phase_inj (h : phase.name.toList = phase'.name.toList) : phase = phase' := by
  revert h
  cases phase <;> cases phase' <;> decide

theorem family_inj (h : family request phase = family other phase') :
    request = other ∧ phase = phase' := by
  have hlist := congrArg String.toList h
  rw [toList_family, toList_family] at hlist
  obtain ⟨hfront, hname⟩ :=
    Text.append_sep_inj (name_not_dashed phase) (name_not_dashed phase') hlist
  obtain ⟨hrequest, -⟩ :=
    Text.append_sep_inj (ordinal_not_dashed phase) (ordinal_not_dashed phase') hfront
  exact ⟨String.toList_inj.mp hrequest, phase_inj hname⟩

/-- **A name tells whose job run it is.** It is taken apart at its last three dashes, whatever dashes
there are in the name of the request. -/
theorem nameOf_inj (h : nameOf request phase i = nameOf other phase' j) :
    request = other ∧ phase = phase' ∧ i = j := by
  have hlist := congrArg String.toList h
  rw [toList_nameOf, toList_nameOf, toList_start, toList_start] at hlist
  obtain ⟨hfamily, hdigits⟩ :=
    Text.append_sep_inj (not_dashed_of_digits i) (not_dashed_of_digits j) hlist
  obtain ⟨hrequest, hphase⟩ := family_inj (String.toList_inj.mp hfamily)
  refine ⟨hrequest, hphase, ?_⟩
  calc
    i = Number.ofDigits 10 Number.decimalValue (Nat.toDigits 10 i) :=
      (Number.ofDigits_toDigits i).symm
    _ = Number.ofDigits 10 Number.decimalValue (Nat.toDigits 10 j) := by rw [hdigits]
    _ = j := Number.ofDigits_toDigits j

end

/-- Behind the last dash stand the digits of the index. -/
theorem indexOf?_nameOf_eq (request : String) (phase : Phase) (index : Nat) :
    indexOf? (nameOf request phase index) =
      Number.naturalBelow? (Nat.pow 2 32) (Nat.toDigits 10 index) := by
  have hlist : (nameOf request phase index).toList =
      (family request phase).toList ++ '-' :: Nat.toDigits 10 index := by
    rw [toList_nameOf, toList_start, List.append_assoc]
    rfl
  rw [indexOf?, hlist, Text.cutLast_append (not_dashed_of_digits index)]
  rfl

/-- **The index is read back from the name.** -/
theorem indexOf?_nameOf {index : Nat} (h : index < Nat.pow 2 32) (request : String)
    (phase : Phase) : indexOf? (nameOf request phase index) = some index := by
  rw [indexOf?_nameOf_eq]
  exact Number.naturalBelow?_eq_some_iff.mpr ⟨h, Number.spells_toDigits index⟩

/-- An index that is too great is not. -/
theorem indexOf?_nameOf_of_le {index : Nat} (h : Nat.pow 2 32 ≤ index) (request : String)
    (phase : Phase) : indexOf? (nameOf request phase index) = none := by
  rw [indexOf?_nameOf_eq, Option.eq_none_iff_forall_ne_some]
  intro n hn
  obtain ⟨hlt, hspells⟩ := Number.naturalBelow?_eq_some_iff.mp hn
  -- the digits spell one number only
  have hread := (Number.natural?_eq_some_iff.mpr hspells).symm.trans
    (Number.natural?_eq_some_iff.mpr (Number.spells_toDigits index))
  rw [Option.some.inj hread] at hlt
  exact absurd h (Nat.not_le.mpr hlt)

end BomAssembly.JobRun
