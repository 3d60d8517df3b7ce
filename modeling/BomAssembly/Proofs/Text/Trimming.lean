import BomAssembly.Text.Blank
import Mathlib.Data.List.DropRight

/-!
# Trimming

What was trimmed once has no blank at either end, so trimming it again leaves it as it is, and it is
blank only if nothing is left. Blanks at the ends make no difference to what trimming leaves.
-/

namespace BomAssembly.Text

theorem trimEnd_isPrefix (cs : List Char) : trimEnd cs <+: cs := List.rdropWhile_prefix isBlank cs

theorem trimEnd_trimEnd (cs : List Char) : trimEnd (trimEnd cs) = trimEnd cs :=
  List.rdropWhile_idempotent isBlank cs

/-- Blanks taken from the end uncover none in front. -/
theorem trimStart_trimEnd {cs : List Char} (h : trimStart cs = cs) :
    trimStart (trimEnd cs) = trimEnd cs := by
  have hfirst := List.dropWhile_eq_self_iff.mp h
  refine List.dropWhile_eq_self_iff.mpr fun hpos => ?_
  rw [(trimEnd_isPrefix cs).getElem hpos]
  exact hfirst (Nat.lt_of_lt_of_le hpos (trimEnd_isPrefix cs).length_le)

theorem trim_trim (cs : List Char) : trim (trim cs) = trim cs := by
  have hstart : trimStart (trimStart cs) = trimStart cs := List.dropWhile_idempotent isBlank cs
  rw [trim, trim, trimStart_trimEnd hstart, trimEnd_trimEnd]

theorem trim_blank_append {blanks : List Char} (h : ∀ c ∈ blanks, isBlank c = true)
    (cs : List Char) : trim (blanks ++ cs) = trim cs := by
  rw [trim, trimStart, List.dropWhile_append_of_pos h]
  rfl

theorem trim_append_blank {blanks : List Char} (h : ∀ c ∈ blanks, isBlank c = true)
    (cs : List Char) : trim (cs ++ blanks) = trim cs := by
  have hall : blanks.dropWhile isBlank = [] := List.dropWhile_eq_nil_iff.mpr h
  have hend : ∀ front, trimEnd (front ++ blanks) = trimEnd front := by
    intro front
    rw [trimEnd, List.reverse_append,
      List.dropWhile_append_of_pos fun c hc => h c (List.mem_reverse.mp hc)]
    rfl
  rw [trim, trim, trimStart, trimStart, List.dropWhile_append]
  split
  · next hempty => rw [hall, List.isEmpty_iff.mp hempty]
  · exact hend _

theorem mem_of_mem_trim {c : Char} {cs : List Char} (h : c ∈ trim cs) : c ∈ cs :=
  (List.dropWhile_suffix _).mem ((trimEnd_isPrefix _).mem h)

/-- **Trimming once is enough.** -/
@[simp] theorem trimmed_trimmed (s : String) : trimmed (trimmed s) = trimmed s := by
  rw [trimmed, trimmed, String.toList_ofList, trim_trim]

/-- What trimming leaves is not blank, unless nothing is left. -/
theorem allBlank_trimmed {s : String} (h : trimmed s ≠ "") : allBlank (trimmed s) = false := by
  refine Bool.eq_false_iff.mpr fun hblank => h ?_
  have hall : ∀ c ∈ trim s.toList, isBlank c = true := by
    rw [allBlank, trimmed, String.toList_ofList] at hblank
    exact List.all_eq_true.mp hblank
  have hstart : trimStart (trim s.toList) = [] := List.dropWhile_eq_nil_iff.mpr hall
  rw [trimmed, ← trim_trim, trim, hstart]
  rfl

/-- Something is left of what is not blank. -/
theorem trimmed_ne_empty {s : String} (h : allBlank s = false) : trimmed s ≠ "" := by
  intro hempty
  have hnil : trim s.toList = [] := by
    rw [← String.toList_ofList (l := trim s.toList), ← trimmed, hempty]
    rfl
  -- blanks at the end cannot be all that stands behind those in front
  have hstart : trimStart s.toList = [] := by
    have hall : ∀ c ∈ (trimStart s.toList).reverse, isBlank c = true :=
      List.dropWhile_eq_nil_iff.mp (List.reverse_eq_nil_iff.mp hnil)
    have hagain : (trimStart s.toList).dropWhile isBlank = [] :=
      List.dropWhile_eq_nil_iff.mpr fun c hc => hall c (List.mem_reverse.mpr hc)
    rw [← hagain]
    exact (List.dropWhile_idempotent isBlank s.toList).symm
  have hall : s.toList.all isBlank = true :=
    List.all_eq_true.mpr (List.dropWhile_eq_nil_iff.mp hstart)
  exact Bool.noConfusion (h.symm.trans hall)

/-- Nothing is taken from between two characters that are no blanks. -/
theorem trim_between {a b : Char} (ha : isBlank a = false) (hb : isBlank b = false)
    (cs : List Char) : trim (a :: (cs ++ [b])) = a :: (cs ++ [b]) := by
  have hstart : trimStart (a :: (cs ++ [b])) = a :: (cs ++ [b]) := by
    rw [trimStart, List.dropWhile_cons_of_neg (by simp [ha])]
  have hsplit : a :: (cs ++ [b]) = (a :: cs) ++ [b] := rfl
  rw [trim, hstart, hsplit, trimEnd, List.reverse_append, List.reverse_singleton,
    List.singleton_append, List.dropWhile_cons_of_neg (by simp [hb]), List.reverse_cons,
    List.reverse_reverse]

end BomAssembly.Text
