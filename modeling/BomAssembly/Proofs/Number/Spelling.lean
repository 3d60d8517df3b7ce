import BomAssembly.Number.DecimalText
import Mathlib.Data.List.Basic
import Mathlib.Data.List.Induction
import Mathlib.Tactic.IntervalCases

/-!
# The spellings of a number

A natural number can be spelled in more ways than one: zeros may stand in front of its digits, and a
plus sign in front of all. These are the only spellings that are read as the number
(`natural?_eq_some_iff`).
-/

namespace BomAssembly.Number

/-! ## Rows of digits -/

theorem digitChar_decimalValue {c : Char} (h : c.isDigit = true) :
    Nat.digitChar (decimalValue c) = c ∧ decimalValue c < 10 := by
  rw [Char.isDigit, Bool.and_eq_true, decide_eq_true_iff, decide_eq_true_iff] at h
  have hlow : 48 ≤ c.toNat := h.1
  have hhigh : c.toNat ≤ 57 := h.2
  clear h
  have hc : c = Char.ofNat c.toNat := (Char.ofNat_toNat c).symm
  rw [decimalValue, hc]
  generalize c.toNat = n at hlow hhigh
  interval_cases n <;> decide

theorem ofDigits_concat (ds : List Char) (c : Char) :
    ofDigits 10 decimalValue (ds ++ [c]) = 10 * ofDigits 10 decimalValue ds + decimalValue c := by
  rw [ofDigits, List.foldl_append, Nat.mul_comm]
  rfl

theorem ofDigits_toDigits (n : Nat) : ofDigits 10 decimalValue (Nat.toDigits 10 n) = n := by
  refine Eq.trans ?_ (Nat.ofDigitChars_ten_toDigits (n := n))
  rw [ofDigits, Nat.ofDigitChars_eq_foldl]
  refine congrArg (fun f => List.foldl f 0 _) (funext fun acc => funext fun c => ?_)
  rw [Nat.mul_comm]
  rfl

theorem ofDigits_replicate_append (zeros : Nat) (ds : List Char) :
    ofDigits 10 decimalValue (List.replicate zeros '0' ++ ds) = ofDigits 10 decimalValue ds := by
  induction zeros with
  | zero => rfl
  | succ k ih =>
      rw [List.replicate_succ, List.cons_append]
      exact ih

/-- **A row of digits is that of its value, behind zeros.** -/
theorem exists_zeros {ds : List Char} (hne : ds ≠ []) (h : ∀ c ∈ ds, c.isDigit = true) :
    ∃ zeros, ds = List.replicate zeros '0' ++ Nat.toDigits 10 (ofDigits 10 decimalValue ds) := by
  induction ds using List.reverseRecOn with
  | nil => exact absurd rfl hne
  | append_singleton ds c ih =>
      obtain ⟨hchar, hlt⟩ := digitChar_decimalValue (h c (by simp))
      have hlast : Nat.toDigits 10 (decimalValue c) = [c] := by
        rw [Nat.toDigits_of_lt_base hlt, hchar]
      rw [ofDigits_concat]
      by_cases hds : ds = []
      · subst hds
        refine ⟨0, ?_⟩
        rw [show 10 * ofDigits 10 decimalValue [] + decimalValue c = decimalValue c from
          Nat.zero_add _, hlast]
        rfl
      · obtain ⟨zeros, heq⟩ := ih hds fun d hd => h d (List.mem_append_left _ hd)
        rcases Nat.eq_zero_or_pos (ofDigits 10 decimalValue ds) with hzero | hpos
        · -- the digits so far are zeros, the one of their value included
          rw [hzero, Nat.toDigits_zero, ← List.replicate_succ'] at heq
          refine ⟨zeros + 1, ?_⟩
          rw [hzero, Nat.mul_zero, Nat.zero_add, hlast, ← heq]
        · refine ⟨zeros, ?_⟩
          rw [← Nat.toDigits_append_toDigits (by decide) hpos hlt, hlast, ← List.append_assoc,
            ← heq]

/-! ## Digits in decimal -/

theorem isDigit_of_mem_toDigits {n : Nat} {c : Char} (h : c ∈ Nat.toDigits 10 n) :
    c.isDigit = true :=
  Nat.isDigit_of_mem_toDigits (by decide) (by decide) h

/-- No zero stands in front of the digits of a number. -/
theorem head?_toDigits {n : Nat} (h : 0 < n) : (Nat.toDigits 10 n).head? ≠ some '0' := by
  induction n using Nat.strongRecOn with
  | ind n ih =>
      by_cases hlt : n < 10
      · have key : ∀ m : Fin 10, 0 < m.val → Nat.digitChar m ≠ '0' := by decide
        rw [Nat.toDigits_of_lt_base hlt]
        intro heq
        exact key ⟨n, hlt⟩ h (Option.some.inj heq)
      · have hpos : 0 < n / 10 := by omega
        have hsplit := Nat.toDigits_append_toDigits (b := 10) (n := n / 10) (d := n % 10) (by decide)
          hpos (Nat.mod_lt n (by decide))
        rw [Nat.div_add_mod] at hsplit
        rw [← hsplit, List.head?_append_of_ne_nil _ Nat.toDigits_ne_nil]
        exact ih (n / 10) (by omega) hpos

theorem toList_toString_nat (n : Nat) : (toString (n : Int)).toList = Nat.toDigits 10 n := by
  show (toString n).toList = _
  rw [Nat.toString_eq_repr, Nat.toList_repr]

theorem toList_toString_negSucc (n : Nat) :
    (toString (Int.negSucc n)).toList = '-' :: Nat.toDigits 10 (n + 1) := by
  show ("-" ++ Nat.repr (n + 1)).toList = _
  rw [String.toList_append, Nat.toList_repr]
  rfl

/-! ## Spellings -/

/-- A spelling of a number: its digits behind zeros, with or without a plus sign. -/
def Spells (n : Nat) (cs : List Char) : Prop :=
  ∃ plus zeros, (plus = [] ∨ plus = ['+']) ∧
    cs = plus ++ (List.replicate zeros '0' ++ Nat.toDigits 10 n)

theorem spells_toDigits (n : Nat) : Spells n (Nat.toDigits 10 n) := ⟨[], 0, .inl rfl, rfl⟩

theorem isDigit_of_mem_spelled {n zeros : Nat} {c : Char}
    (h : c ∈ List.replicate zeros '0' ++ Nat.toDigits 10 n) : c.isDigit = true := by
  rcases List.mem_append.mp h with h | h
  · rw [(List.mem_replicate.mp h).2]
    decide
  · exact isDigit_of_mem_toDigits h

theorem row_eq_some_iff {ds : List Char} {n : Nat} :
    (if ds.isEmpty || !ds.all Char.isDigit then none
      else some (ofDigits 10 decimalValue ds)) = some n ↔
      ∃ zeros, ds = List.replicate zeros '0' ++ Nat.toDigits 10 n := by
  constructor
  · intro h
    split at h
    · exact absurd h (by simp)
    · next hno =>
      have hrow : ds ≠ [] ∧ ∀ c ∈ ds, c.isDigit = true := by simpa using hno
      rw [← Option.some.inj h]
      exact exists_zeros hrow.1 hrow.2
  · rintro ⟨zeros, rfl⟩
    have hne : List.replicate zeros '0' ++ Nat.toDigits 10 n ≠ [] := by
      simp [Nat.toDigits_ne_nil]
    have hall : (List.replicate zeros '0' ++ Nat.toDigits 10 n).all Char.isDigit = true :=
      List.all_eq_true.mpr fun c hc => isDigit_of_mem_spelled hc
    rw [hall, List.isEmpty_eq_false_iff.mpr hne, ofDigits_replicate_append, ofDigits_toDigits]
    rfl

/-- **What is read as a number is a spelling of it.** -/
theorem natural?_eq_some_iff {cs : List Char} {n : Nat} :
    natural? cs = some n ↔ Spells n cs := by
  unfold natural?
  split
  · rw [row_eq_some_iff]
    constructor
    · rintro ⟨zeros, rfl⟩
      exact ⟨['+'], zeros, .inr rfl, rfl⟩
    · rintro ⟨plus, zeros, rfl | rfl, heq⟩
      -- a plus sign is no digit
      · exact absurd (isDigit_of_mem_spelled (heq ▸ List.mem_cons_self)) (by decide)
      · exact ⟨zeros, (List.cons.inj heq).2⟩
  · next hno =>
    rw [row_eq_some_iff]
    constructor
    · rintro ⟨zeros, rfl⟩
      exact ⟨[], zeros, .inl rfl, rfl⟩
    · rintro ⟨plus, zeros, rfl | rfl, heq⟩
      · exact ⟨zeros, heq⟩
      · exact absurd heq (hno _)

theorem naturalBelow?_eq_some_iff {bound n : Nat} {cs : List Char} :
    naturalBelow? bound cs = some n ↔ n < bound ∧ Spells n cs := by
  rw [naturalBelow?, Option.filter_eq_some_iff, natural?_eq_some_iff, and_comm]
  simp

end BomAssembly.Number
