import BomAssembly.Json.Reader
import BomAssembly.Proofs.Json.Scalars

/-!
# How far a value reaches

What a text can hold is limited in two ways: containers may only be nested so deep, and a number has
to have a text. A value that stays within both limits `Fits`. What was read is never nested deeper than
the reader allows (`height_le_of_readWritten`).
-/

namespace BomAssembly.Json

/-- What holds of a container when it holds of all that is in it, and of everything else, holds of
every value. -/
@[elab_as_elim]
theorem induction {motive : Json → Prop} (null : motive .null) (bool : ∀ b, motive (.bool b))
    (num : ∀ n, motive (.num n)) (str : ∀ s, motive (.str s))
    (arr : ∀ vs, (∀ v ∈ vs, motive v) → motive (.arr vs))
    (obj : ∀ fs, (∀ f ∈ fs, motive f.2) → motive (.obj fs)) (v : Json) : motive v :=
  @Json.rec motive (fun vs => ∀ v ∈ vs, motive v) (fun fs => ∀ f ∈ fs, motive f.2)
    (fun f => motive f.2) null bool num str arr obj
    (fun _ hv => absurd hv List.not_mem_nil)
    (fun _ _ hv hvs => List.forall_mem_cons.mpr ⟨hv, hvs⟩)
    (fun _ hf => absurd hf List.not_mem_nil)
    (fun _ _ hf hfs => List.forall_mem_cons.mpr ⟨hf, hfs⟩)
    (fun _ _ hv => hv) v

mutual

/-- How deep containers are nested. -/
def height : Json → Nat
  | .arr vs => itemsHeight vs + 1
  | .obj fs => membersHeight fs + 1
  | _ => 0

/-- How deep containers are nested in items. -/
def itemsHeight : List Json → Nat
  | [] => 0
  | v :: vs => max v.height (itemsHeight vs)

/-- How deep containers are nested in the values of fields. -/
def membersHeight : List (String × Json) → Nat
  | [] => 0
  | (_, v) :: fs => max v.height (membersHeight fs)

end

mutual

/-- The numbers in a value. -/
def numbers : Json → List JsonNumber
  | .num n => [n]
  | .arr vs => itemsNumbers vs
  | .obj fs => membersNumbers fs
  | _ => []

/-- The numbers in items. -/
def itemsNumbers : List Json → List JsonNumber
  | [] => []
  | v :: vs => v.numbers ++ itemsNumbers vs

/-- The numbers in the values of fields. -/
def membersNumbers : List (String × Json) → List JsonNumber
  | [] => []
  | (_, v) :: fs => v.numbers ++ membersNumbers fs

end

theorem itemsHeight_le_iff {d : Nat} {vs : List Json} :
    itemsHeight vs ≤ d ↔ ∀ v ∈ vs, v.height ≤ d := by
  induction vs with
  | nil => simp [itemsHeight]
  | cons v vs ih => rw [itemsHeight, Nat.max_le, ih, List.forall_mem_cons]

theorem membersHeight_le_iff {d : Nat} {fs : List (String × Json)} :
    membersHeight fs ≤ d ↔ ∀ f ∈ fs, f.2.height ≤ d := by
  induction fs with
  | nil => simp [membersHeight]
  | cons f fs ih => rw [membersHeight, Nat.max_le, ih, List.forall_mem_cons]

theorem mem_itemsNumbers {n : JsonNumber} {vs : List Json} :
    n ∈ itemsNumbers vs ↔ ∃ v ∈ vs, n ∈ v.numbers := by
  induction vs with
  | nil => simp [itemsNumbers]
  | cons v vs ih => rw [itemsNumbers, List.mem_append, ih, List.exists_mem_cons_iff]

theorem mem_membersNumbers {n : JsonNumber} {fs : List (String × Json)} :
    n ∈ membersNumbers fs ↔ ∃ f ∈ fs, n ∈ f.2.numbers := by
  induction fs with
  | nil => simp [membersNumbers]
  | cons f fs ih => rw [membersNumbers, List.mem_append, ih, List.exists_mem_cons_iff]

/-- A value that can be written and read: nested at most so deep, with numbers that are whole. -/
structure Fits (d : Nat) (v : Json) : Prop where
  height : v.height ≤ d
  numbers : ∀ n ∈ v.numbers, n.Whole

theorem fits_str (d : Nat) (s : String) : (Json.str s).Fits d := ⟨Nat.zero_le d, by simp [numbers]⟩

theorem fits_nat (d : Nat) {n : Nat} (h : n < 2 ^ 64) : (Json.nat n).Fits d := by
  refine ⟨Nat.zero_le d, fun m hm => ?_⟩
  obtain rfl := List.mem_singleton.mp hm
  have hrange : -2 ^ 63 ≤ (n : Int) ∧ (n : Int) < 2 ^ 64 := by omega
  exact hrange

theorem fits_arr_iff {d : Nat} {vs : List Json} :
    (Json.arr vs).Fits (d + 1) ↔ ∀ v ∈ vs, v.Fits d := by
  constructor
  · intro h v hv
    have hheight := h.height
    rw [height, Nat.add_le_add_iff_right, itemsHeight_le_iff] at hheight
    exact ⟨hheight v hv, fun n hn => h.numbers n (mem_itemsNumbers.mpr ⟨v, hv, hn⟩)⟩
  · intro h
    refine ⟨?_, fun n hn => ?_⟩
    · rw [height, Nat.add_le_add_iff_right, itemsHeight_le_iff]
      exact fun v hv => (h v hv).height
    · obtain ⟨v, hv, hn⟩ := mem_itemsNumbers.mp hn
      exact (h v hv).numbers n hn

theorem fits_obj_iff {d : Nat} {fs : List (String × Json)} :
    (Json.obj fs).Fits (d + 1) ↔ ∀ f ∈ fs, f.2.Fits d := by
  constructor
  · intro h f hf
    have hheight := h.height
    rw [height, Nat.add_le_add_iff_right, membersHeight_le_iff] at hheight
    exact ⟨hheight f hf, fun n hn => h.numbers n (mem_membersNumbers.mpr ⟨f, hf, hn⟩)⟩
  · intro h
    refine ⟨?_, fun n hn => ?_⟩
    · rw [height, Nat.add_le_add_iff_right, membersHeight_le_iff]
      exact fun f hf => (h f hf).height
    · obtain ⟨f, hf, hn⟩ := mem_membersNumbers.mp hn
      exact (h f hf).numbers n hn

/-- There is room for a container around something. -/
theorem Fits.pos_of_arr {d : Nat} {vs : List Json} (h : (Json.arr vs).Fits d) : ∃ k, d = k + 1 := by
  have hheight := h.height
  rw [Json.height] at hheight
  exact ⟨d - 1, by omega⟩

theorem Fits.pos_of_obj {d : Nat} {fs : List (String × Json)} (h : (Json.obj fs).Fits d) :
    ∃ k, d = k + 1 := by
  have hheight := h.height
  rw [Json.height] at hheight
  exact ⟨d - 1, by omega⟩

/-! ## What was read -/

/-- What a reader of values, of items and of members promises with so much fuel. -/
structure Shallow (n : Nat) : Prop where
  value : ∀ {d : Nat} {shape : Shape} {cs rest : List Char} {v : Json},
    takeValue n d shape cs = some (v, rest) → v.height ≤ d
  items : ∀ {d : Nat} {shape : Shape} {cs rest : List Char} {vs : List Json},
    takeItems n d shape cs = some (vs, rest) → itemsHeight vs ≤ d
  members : ∀ {d : Nat} {shape : Shape} {cs rest : List Char} {fs : List (String × Json)},
    takeMembers n d shape cs = some (fs, rest) → membersHeight fs ≤ d

theorem shallow_zero : Shallow 0 where
  value h := by simp [takeValue] at h
  items h := by simp [takeItems] at h
  members h := by simp [takeMembers] at h

section Step

variable {n : Nat} (hn : Shallow n) {d : Nat} {shape : Shape} {cs rest : List Char}

include hn

theorem Shallow.value_succ {v : Json} (h : takeValue (n + 1) d shape cs = some (v, rest)) :
    v.height ≤ d := by
  rw [takeValue] at h
  split at h
  · obtain ⟨r, -, heq⟩ := Option.map_eq_some_iff.mp h
    rw [← (Prod.mk.inj heq).1]
    exact Nat.zero_le d
  · split at h
    · exact absurd h (by simp)
    · split at h
      · rw [← (Prod.mk.inj (Option.some.inj h)).1, height, itemsHeight]
        omega
      · obtain ⟨r, hr, heq⟩ := Option.map_eq_some_iff.mp h
        have hitems := hn.items hr
        rw [← (Prod.mk.inj heq).1, height]
        omega
  · split at h
    · exact absurd h (by simp)
    · split at h
      · rw [← (Prod.mk.inj (Option.some.inj h)).1, height, membersHeight]
        omega
      · obtain ⟨r, hr, heq⟩ := Option.map_eq_some_iff.mp h
        have hmembers := hn.members hr
        rw [← (Prod.mk.inj heq).1, height]
        omega
  iterate 3
    · obtain ⟨r, -, heq⟩ := Option.map_eq_some_iff.mp h
      rw [← (Prod.mk.inj heq).1]
      exact Nat.zero_le d
  · split at h
    · exact absurd h (by simp)
    · obtain ⟨r, -, heq⟩ := Option.map_eq_some_iff.mp h
      rw [← (Prod.mk.inj heq).1]
      exact Nat.zero_le d

theorem Shallow.items_succ {vs : List Json} (h : takeItems (n + 1) d shape cs = some (vs, rest)) :
    itemsHeight vs ≤ d := by
  rw [takeItems] at h
  split at h
  · exact absurd h (by simp)
  · next v r hv =>
    have hvalue := hn.value hv
    split at h
    · rw [← (Prod.mk.inj (Option.some.inj h)).1, itemsHeight, itemsHeight]
      omega
    · obtain ⟨r, hr, heq⟩ := Option.map_eq_some_iff.mp h
      have hitems := hn.items hr
      rw [← (Prod.mk.inj heq).1, itemsHeight]
      omega
    · exact absurd h (by simp)

theorem Shallow.members_succ {fs : List (String × Json)}
    (h : takeMembers (n + 1) d shape cs = some (fs, rest)) : membersHeight fs ≤ d := by
  rw [takeMembers] at h
  split at h
  · split at h
    · exact absurd h (by simp)
    · next name _ _ =>
      dsimp only at h
      split at h
      · split at h
        · exact absurd h (by simp)
        · next field r hfield =>
          -- the field, if it is wanted, has a value that was read
          have hvalue : membersHeight field ≤ d := by
            split at hfield
            · obtain ⟨w, hw, heq⟩ := Option.map_eq_some_iff.mp hfield
              have hheight := hn.value hw
              rw [← (Prod.mk.inj heq).1, membersHeight, membersHeight]
              omega
            · obtain ⟨w, -, heq⟩ := Option.map_eq_some_iff.mp hfield
              rw [← (Prod.mk.inj heq).1]
              exact Nat.zero_le d
          split at h
          · rw [← (Prod.mk.inj (Option.some.inj h)).1]
            exact hvalue
          · obtain ⟨w, hw, heq⟩ := Option.map_eq_some_iff.mp h
            have hmore := membersHeight_le_iff.mp (hn.members hw)
            rw [← (Prod.mk.inj heq).1, membersHeight_le_iff]
            intro f hf
            rcases List.mem_append.mp hf with hf | hf
            · exact membersHeight_le_iff.mp hvalue f hf
            · exact hmore f hf
          · exact absurd h (by simp)
      · exact absurd h (by simp)
  · exact absurd h (by simp)

end Step

theorem shallow (n : Nat) : Shallow n := by
  induction n with
  | zero => exact shallow_zero
  | succ n ih => exact ⟨ih.value_succ, ih.items_succ, ih.members_succ⟩

/-- **What was read is nested no deeper than is allowed.** -/
theorem height_le_of_readWritten {shape : Shape} {s : String} {v : Json}
    (h : readWritten shape s = some v) : v.height ≤ maxDepth := by
  rw [readWritten] at h
  split at h
  · next hv =>
    split at h
    · rw [← Option.some.inj h]
      exact (shallow _).value hv
    · exact absurd h (by simp)
  · exact absurd h (by simp)

end BomAssembly.Json
