import BomAssembly.Proofs.Json.RoundTrip

/-!
# Shapes that want everything

A reader that is told what is wanted skips the rest. Where a shape wants all that is in a value
(`Shape.Covers`) there is nothing to skip, so the value is read as it is without a shape
(`readWritten_of_covers`).
-/

namespace BomAssembly.Json

mutual

/-- A shape wants all there is in a value. -/
def Shape.Covers : Shape → Json → Prop
  | shape, .arr vs => shape.CoversItems vs
  | shape, .obj fs => shape.CoversMembers fs
  | _, _ => True

/-- A shape of an array wants all there is in each item. -/
def Shape.CoversItems : Shape → List Json → Prop
  | _, [] => True
  | shape, v :: vs => shape.items.1.Covers v ∧ shape.items.2.CoversItems vs

/-- A shape of an object wants each field, and all there is in it. -/
def Shape.CoversMembers : Shape → List (String × Json) → Prop
  | _, [] => True
  | shape, (k, v) :: fs => (∃ s, shape.field? k = some s ∧ s.Covers v) ∧ shape.CoversMembers fs

end

/-- What a reader of values, of items and of members promises with so much fuel. -/
structure Wants (n : Nat) : Prop where
  value : ∀ {d : Nat} {shape : Shape} {cs rest : List Char} {v : Json},
    takeValue n d .any cs = some (v, rest) → shape.Covers v → takeValue n d shape cs = some (v, rest)
  items : ∀ {d : Nat} {shape : Shape} {cs rest : List Char} {vs : List Json},
    takeItems n d .any cs = some (vs, rest) → shape.CoversItems vs →
      takeItems n d shape cs = some (vs, rest)
  members : ∀ {d : Nat} {shape : Shape} {cs rest : List Char} {fs : List (String × Json)},
    takeMembers n d .any cs = some (fs, rest) → shape.CoversMembers fs →
      takeMembers n d shape cs = some (fs, rest)

theorem wants_zero : Wants 0 where
  value h := by simp [takeValue] at h
  items h := by simp [takeItems] at h
  members h := by simp [takeMembers] at h

section Step

variable {n : Nat} (hn : Wants n) {d : Nat} {shape : Shape} {cs rest : List Char}

include hn

theorem Wants.value_succ {v : Json} (h : takeValue (n + 1) d .any cs = some (v, rest))
    (hcovers : shape.Covers v) : takeValue (n + 1) d shape cs = some (v, rest) := by
  rw [takeValue] at h ⊢
  generalize skipSpace cs = ds at h ⊢
  split at h
  · exact h
  · next behind =>
    split at h
    · exact absurd h (by simp)
    · next hd =>
      dsimp only
      rw [if_neg hd]
      generalize skipSpace behind = es at h ⊢
      split at h
      · exact h
      · obtain ⟨⟨vs, r⟩, hread, heq⟩ := Option.map_eq_some_iff.mp h
        obtain ⟨rfl, rfl⟩ := Prod.mk.inj heq
        have hitems := hn.items hread (by simpa only [Shape.Covers] using hcovers)
        rw [hitems]
        rfl
  · next behind =>
    split at h
    · exact absurd h (by simp)
    · next hd =>
      dsimp only
      rw [if_neg hd]
      generalize skipSpace behind = es at h ⊢
      split at h
      · exact h
      · obtain ⟨⟨fs, r⟩, hread, heq⟩ := Option.map_eq_some_iff.mp h
        obtain ⟨rfl, rfl⟩ := Prod.mk.inj heq
        have hmembers := hn.members hread (by simpa only [Shape.Covers] using hcovers)
        rw [hmembers]
        rfl
  · exact h
  · exact h
  · exact h
  · split <;> simp_all

theorem Wants.items_succ {vs : List Json} (h : takeItems (n + 1) d .any cs = some (vs, rest))
    (hcovers : shape.CoversItems vs) : takeItems (n + 1) d shape cs = some (vs, rest) := by
  rw [takeItems] at h ⊢
  split at h
  · exact absurd h (by simp)
  · next v behind hv =>
    have hvalue : shape.items.1.Covers v → takeValue n d shape.items.1 cs = some (v, behind) :=
      fun hw => hn.value hv hw
    generalize hes : skipSpace behind = es at h
    split at h
    · obtain ⟨rfl, rfl⟩ := Prod.mk.inj (Option.some.inj h)
      rw [hvalue hcovers.1]
      dsimp only
      rw [hes]
      rfl
    · obtain ⟨⟨more, r⟩, hread, heq⟩ := Option.map_eq_some_iff.mp h
      obtain ⟨rfl, rfl⟩ := Prod.mk.inj heq
      have hmore := hn.items hread hcovers.2
      rw [hvalue hcovers.1]
      dsimp only
      rw [hes]
      show (takeItems n d shape.items.2 _).map _ = _
      rw [hmore]
      rfl
    · exact absurd h (by simp)

theorem Wants.members_succ {fs : List (String × Json)}
    (h : takeMembers (n + 1) d .any cs = some (fs, rest)) (hcovers : shape.CoversMembers fs) :
    takeMembers (n + 1) d shape cs = some (fs, rest) := by
  rw [takeMembers] at h ⊢
  generalize skipSpace cs = ds at h ⊢
  split at h
  · split at h
    · exact absurd h (by simp)
    · next name behind hname =>
      dsimp only at h ⊢
      split at h
      · next colon hcolon =>
        -- without a shape every field is wanted
        have hany : Shape.any.field? (String.ofList name) = some .any := rfl
        rw [hany] at h
        dsimp only at h
        cases hv : takeValue n d .any colon with
        | none => simp [hv] at h
        | some r =>
            obtain ⟨v, behind⟩ := r
            rw [hv] at h
            dsimp only [Option.map_some] at h
            generalize hes : skipSpace behind = es at h
            split at h
            · obtain ⟨rfl, rfl⟩ := Prod.mk.inj (Option.some.inj h)
              obtain ⟨⟨s, hs, hsv⟩, -⟩ := hcovers
              rw [hs]
              dsimp only
              rw [hn.value hv hsv]
              dsimp only [Option.map_some]
              rw [hes]
              rfl
            · obtain ⟨⟨more, r⟩, hread, heq⟩ := Option.map_eq_some_iff.mp h
              obtain ⟨rfl, rfl⟩ := Prod.mk.inj heq
              obtain ⟨⟨s, hs, hsv⟩, hmore⟩ := hcovers
              have hbehind := hn.members hread hmore
              rw [hs]
              dsimp only
              rw [hn.value hv hsv]
              dsimp only [Option.map_some]
              rw [hes]
              show (takeMembers n d shape _).map _ = _
              rw [hbehind]
              rfl
            · exact absurd h (by simp)
      · exact absurd h (by simp)
  · exact absurd h (by simp)

end Step

theorem wants (n : Nat) : Wants n := by
  induction n with
  | zero => exact wants_zero
  | succ n ih => exact ⟨ih.value_succ, ih.items_succ, ih.members_succ⟩

/-- **Where a shape wants everything, a text is read as it is without a shape.** -/
theorem readWritten_of_covers {shape : Shape} {s : String} {v : Json}
    (h : readWritten .any s = some v) (hcovers : shape.Covers v) : readWritten shape s = some v := by
  rw [readWritten] at h
  split at h
  · next w behind hv =>
    split at h
    · next hbehind =>
      obtain rfl := Option.some.inj h
      exact readWritten_of_takeValue ((wants _).value hv hcovers) hbehind
    · exact absurd h (by simp)
  · exact absurd h (by simp)

end BomAssembly.Json
