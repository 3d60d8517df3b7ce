import BomAssembly.Coordinate.Similarity
import BomAssembly.Proofs.Text.Cutting
import Mathlib.Algebra.Order.BigOperators.Group.List
import Mathlib.Algebra.Order.Ring.Nat

/-!
# Versions that begin alike

A score of two versions is told by one number: how many leading segments they share, each the same
on both sides and not empty (`shared`). At least `n` are shared exactly if the versions agree at
each of the first `n` places (`le_shared_iff`), and agreeing at a place is symmetric and transitive.
So the number is an ultrametric: what `a` shares with `b` and `b` with `c`, `a` shares with `c`.

The score is the worth of that many segments (`agreement_eq`), and more segments are never worth
less. This carries both laws over to scores, whatever the segments are worth.
-/

namespace BomAssembly.Coordinate

/-! ## Segments -/

/-- The segments of a version; an absent version has none. -/
def versionSegments : Option String → List (List Char)
  | some v => Text.pieces '.' v.toList
  | none => []

/-- The segments are what stands between the dots. -/
theorem versionSegments_some_eq_iff {v : String} {segs : List (List Char)} :
    versionSegments (some v) = segs ↔
      segs ≠ [] ∧ (∀ s ∈ segs, '.' ∉ s) ∧ Text.joined ['.'] segs = v.toList := by
  constructor
  · rintro rfl
    exact ⟨Text.pieces_ne_nil _ _, fun _ => Text.not_mem_of_mem_pieces, Text.joined_pieces _ _⟩
  · rintro ⟨hne, hdots, hjoined⟩
    rw [versionSegments, ← hjoined]
    exact Text.pieces_joined hne hdots

/-- At this place both have a segment, the same one, and it is not empty. -/
def AgreeAt (as bs : List (List Char)) (i : Nat) : Prop :=
  ∃ s, s ≠ [] ∧ as[i]? = some s ∧ bs[i]? = some s

section AgreeAt

variable {as bs cs : List (List Char)} {a b : List Char} {i : Nat}

theorem AgreeAt.symm (h : AgreeAt as bs i) : AgreeAt bs as i := by
  obtain ⟨s, hs, ha, hb⟩ := h
  exact ⟨s, hs, hb, ha⟩

theorem AgreeAt.trans (h : AgreeAt as bs i) (h' : AgreeAt bs cs i) : AgreeAt as cs i := by
  obtain ⟨s, hs, ha, hb⟩ := h
  obtain ⟨t, -, hb', hc⟩ := h'
  obtain rfl : s = t := Option.some.inj (hb.symm.trans hb')
  exact ⟨s, hs, ha, hc⟩

theorem agreeAt_cons_zero : AgreeAt (a :: as) (b :: bs) 0 ↔ a ≠ [] ∧ a = b := by
  constructor
  · rintro ⟨s, hs, ha, hb⟩
    obtain rfl : a = s := Option.some.inj ha
    exact ⟨hs, (Option.some.inj hb).symm⟩
  · rintro ⟨ha, rfl⟩
    exact ⟨a, ha, rfl, rfl⟩

theorem agreeAt_cons_succ : AgreeAt (a :: as) (b :: bs) (i + 1) ↔ AgreeAt as bs i := Iff.rfl

end AgreeAt

/-! ## How many are shared -/

/-- How many leading segments are shared. -/
def shared : List (List Char) → List (List Char) → Nat
  | a :: as, b :: bs => if a ≠ [] ∧ a = b then shared as bs + 1 else 0
  | _, _ => 0

section Shared

variable (as bs cs : List (List Char))

/-- **At least so many are shared** exactly if the versions agree at each of the first places. -/
theorem le_shared_iff {n : Nat} : n ≤ shared as bs ↔ ∀ i < n, AgreeAt as bs i := by
  induction n generalizing as bs with
  | zero => exact iff_of_true (Nat.zero_le _) fun i hi => absurd hi (Nat.not_lt_zero i)
  | succ n ih =>
      rw [Nat.forall_lt_succ_left]
      match as, bs with
      | [], _ => simp [shared, AgreeAt]
      | _ :: _, [] => simp [shared, AgreeAt]
      | a :: as, b :: bs =>
          simp only [agreeAt_cons_zero, agreeAt_cons_succ, ← ih, shared]
          by_cases hab : a ≠ [] ∧ a = b
          · rw [if_pos hab, and_iff_right hab, Nat.succ_le_succ_iff]
          · rw [if_neg hab]
            exact iff_of_false (Nat.not_succ_le_zero n) fun h => hab h.1

variable {as bs} in
theorem agreeAt_of_lt {i : Nat} (h : i < shared as bs) : AgreeAt as bs i :=
  (le_shared_iff as bs).mp le_rfl i h

theorem shared_comm : shared as bs = shared bs as := by
  have hle (as bs : List (List Char)) : shared as bs ≤ shared bs as :=
    (le_shared_iff bs as).mpr fun _ hi => (agreeAt_of_lt hi).symm
  exact Nat.le_antisymm (hle as bs) (hle bs as)

/-- **What is shared along the way is shared by the ends.** -/
theorem min_shared_le : min (shared as bs) (shared bs cs) ≤ shared as cs := by
  rw [le_shared_iff]
  intro i hi
  obtain ⟨hab, hbc⟩ := lt_min_iff.mp hi
  exact (agreeAt_of_lt hab).trans (agreeAt_of_lt hbc)

/-- The score is the worth of the segments that are shared. -/
theorem agreement_eq (ws : List Nat) : agreement ws as bs = (ws.take (shared as bs)).sum := by
  induction ws generalizing as bs with
  | nil => simp [agreement]
  | cons w ws ih =>
      match as, bs with
      | [], _ => simp [agreement, shared]
      | _ :: _, [] => simp [agreement, shared]
      | a :: as, b :: bs =>
          by_cases hab : a ≠ [] ∧ a = b
          · rw [agreement, shared, if_pos hab, if_pos hab, List.take_succ_cons, List.sum_cons, ih]
          · rw [agreement, shared, if_neg hab, if_neg hab, List.take_zero, List.sum_nil]

end Shared

/-! ## Scores -/

/-- Exactly so many leading segments are in both versions, the same and not empty. -/
structure Share (v w : Option String) (n : Nat) : Prop where
  same : ∀ i < n, AgreeAt (versionSegments v) (versionSegments w) i
  ends : ¬ AgreeAt (versionSegments v) (versionSegments w) n

section Scores

variable {v w : Option String} {n : Nat}

theorem share_iff : Share v w n ↔ shared (versionSegments v) (versionSegments w) = n := by
  have hfirst := le_shared_iff (versionSegments v) (versionSegments w) (n := n)
  have hnext := le_shared_iff (versionSegments v) (versionSegments w) (n := n + 1)
  rw [Nat.forall_lt_succ_right] at hnext
  constructor
  · rintro ⟨hsame, hends⟩
    have hle := hfirst.mpr hsame
    have hlt : ¬ n + 1 ≤ shared (versionSegments v) (versionSegments w) :=
      fun h => hends (hnext.mp h).2
    omega
  · intro h
    have hsame := hfirst.mp h.ge
    exact ⟨hsame, fun hn => absurd (hnext.mpr ⟨hsame, hn⟩) (by omega)⟩

theorem versionSimilarity_eq (v w : Option String) : versionSimilarity v w =
    (segmentWeights.take (shared (versionSegments v) (versionSegments w))).sum := by
  match v, w with
  | some v, some w => exact agreement_eq _ _ segmentWeights
  | none, _ => simp [versionSimilarity, versionSegments, shared]
  | some v, none => simp [versionSimilarity, versionSegments, shared]

/-- One segment is worth 3, two are worth 5, and three or more 6. -/
theorem Share.score_eq (h : Share v w n) : versionSimilarity v w =
    if n = 0 then 0 else if n = 1 then 3 else if n = 2 then 5 else 6 := by
  rw [versionSimilarity_eq, share_iff.mp h]
  match n with
  | 0 | 1 | 2 => rfl
  | n + 3 => simp [segmentWeights]

theorem versionSimilarity_comm (v w : Option String) :
    versionSimilarity v w = versionSimilarity w v := by
  rw [versionSimilarity_eq, versionSimilarity_eq, shared_comm]

/-- More segments are not worth less, so scores obey the law of the numbers they come from. -/
theorem min_versionSimilarity_le (v w x : Option String) :
    min (versionSimilarity v w) (versionSimilarity w x) ≤ versionSimilarity v x := by
  have hmono := List.monotone_sum_take segmentWeights
  rw [versionSimilarity_eq, versionSimilarity_eq, versionSimilarity_eq, ← hmono.map_min]
  exact hmono (min_shared_le _ _ _)

end Scores

/-- **Scores of versions are an ultrametric on leading segments.** The segments are what stands
between the dots. Two versions score 0, 3, 5 or 6 as they share exactly none, one, two or more of
them; it does not matter which of the two comes first, and two versions are never farther apart than
the farther of them is from a third. -/
theorem versionSimilarity_ultrametric (a b c : Option String) :
    (∀ v segs, versionSegments (some v) = segs ↔
      segs ≠ [] ∧ (∀ s ∈ segs, '.' ∉ s) ∧ Text.joined ['.'] segs = v.toList) ∧
    (∃! n, Share a b n) ∧
    (versionSimilarity a b = 0 ↔ Share a b 0) ∧ (versionSimilarity a b = 3 ↔ Share a b 1) ∧
    (versionSimilarity a b = 5 ↔ Share a b 2) ∧
    (versionSimilarity a b = 6 ↔ ∃ n ≥ 3, Share a b n) ∧
    versionSimilarity a b = versionSimilarity b a ∧
    min (versionSimilarity a b) (versionSimilarity b c) ≤ versionSimilarity a c := by
  obtain ⟨n, hn⟩ : ∃ n, Share a b n := ⟨_, share_iff.mpr rfl⟩
  have hshare (m : Nat) : Share a b m ↔ m = n := by
    rw [share_iff, ← share_iff.mp hn, eq_comm]
  have hscore := hn.score_eq
  refine ⟨fun _ _ => versionSegments_some_eq_iff, ⟨n, hn, fun m hm => (hshare m).mp hm⟩,
    ?_, ?_, ?_, ?_, versionSimilarity_comm a b, min_versionSimilarity_le a b c⟩
  -- up to three shared segments, each number has a score of its own
  all_goals grind

/-- An empty segment ends what is shared. -/
example : versionSimilarity (some "1..3") (some "1..3") = 3 := by decide

end BomAssembly.Coordinate
