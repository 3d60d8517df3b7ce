/-!
# Computations that may fail

A sequence of steps gives a result exactly when each step does (`bind_eq_ok`). For a step made on
every member of a list, or a fold over it, the result is told member by member.
-/

namespace BomAssembly

variable {ε α β : Type}

theorem bind_eq_ok {x : Except ε α} {f : α → Except ε β} {b : β} :
    (x >>= f) = .ok b ↔ ∃ a, x = .ok a ∧ f a = .ok b := by
  cases x with
  | error e => simp [bind, Except.bind]
  | ok a => simp [bind, Except.bind]

theorem map_eq_ok {x : Except ε α} {f : α → β} {b : β} :
    x.map f = .ok b ↔ ∃ a, x = .ok a ∧ f a = b := by
  cases x with
  | error e => simp [Except.map]
  | ok a => simp [Except.map]

/-! ## A step on every member -/

theorem mapM_of_forall {m : Type → Type} [Monad m] [LawfulMonad m] {β : Type} {f : α → m β}
    {g : α → β} {l : List α} (h : ∀ a ∈ l, f a = pure (g a)) : l.mapM f = pure (l.map g) := by
  induction l with
  | nil => rfl
  | cons a l ih =>
      rw [List.mapM_cons, h a List.mem_cons_self, pure_bind,
        ih (fun b hb => h b (List.mem_cons_of_mem _ hb)), pure_bind, List.map_cons]

theorem mapM_ok_of_forall {f : α → Except ε β} {g : α → β} {l : List α}
    (h : ∀ a ∈ l, f a = .ok (g a)) : l.mapM f = .ok (l.map g) :=
  mapM_of_forall h

theorem mapM_eq_ok_cons {f : α → Except ε β} {a : α} {l : List α} {r : List β}
    (h : (a :: l).mapM f = .ok r) :
    ∃ b bs, f a = .ok b ∧ l.mapM f = .ok bs ∧ r = b :: bs := by
  rw [List.mapM_cons] at h
  obtain ⟨b, hb, h⟩ := bind_eq_ok.mp h
  obtain ⟨bs, hbs, h⟩ := bind_eq_ok.mp h
  exact ⟨b, bs, hb, hbs, (Except.ok.inj h).symm⟩

/-- Every member of the result comes from a member of the list. -/
theorem exists_of_mem_mapM {f : α → Except ε β} {l : List α} {r : List β}
    (h : l.mapM f = .ok r) : ∀ b ∈ r, ∃ a ∈ l, f a = .ok b := by
  induction l generalizing r with
  | nil =>
      rw [← Except.ok.inj h]
      exact fun b hb => absurd hb List.not_mem_nil
  | cons a l ih =>
      obtain ⟨b, bs, hb, hbs, rfl⟩ := mapM_eq_ok_cons h
      intro d hd
      rcases List.mem_cons.mp hd with hd | hd
      · exact ⟨a, List.mem_cons_self, hd ▸ hb⟩
      · obtain ⟨c, hc, hcd⟩ := ih hbs d hd
        exact ⟨c, List.mem_cons_of_mem _ hc, hcd⟩

theorem bind_of_eq {o : Option α} {a : α} (h : o = some a) (f : α → Option β) : (o >>= f) = f a :=
  h ▸ rfl

theorem exists_of_mem_mapM_some {f : α → Option β} {l : List α} {r : List β}
    (h : l.mapM f = some r) : ∀ b ∈ r, ∃ a ∈ l, f a = some b := by
  induction l generalizing r with
  | nil =>
      rw [← Option.some.inj h]
      exact fun b hb => absurd hb List.not_mem_nil
  | cons a l ih =>
      rw [List.mapM_cons] at h
      obtain ⟨b, hb, h⟩ := Option.bind_eq_some_iff.mp h
      obtain ⟨bs, hbs, h⟩ := Option.bind_eq_some_iff.mp h
      obtain rfl := Option.some.inj h
      intro d hd
      rcases List.mem_cons.mp hd with rfl | hd
      · exact ⟨a, List.mem_cons_self, hb⟩
      · obtain ⟨c, hc, hcd⟩ := ih hbs d hd
        exact ⟨c, List.mem_cons_of_mem _ hc, hcd⟩

/-- A step that no member fails at drops no member. -/
theorem filterMap_map_of_forall {γ : Type} {f : β → Option γ} {g : α → β} {h : α → γ} {l : List α}
    (hf : ∀ a ∈ l, f (g a) = some (h a)) : (l.map g).filterMap f = l.map h := by
  induction l with
  | nil => rfl
  | cons a l ih =>
      rw [List.map_cons, List.filterMap_cons_some (hf a List.mem_cons_self), List.map_cons,
        ih (fun b hb => hf b (List.mem_cons_of_mem _ hb))]

/-! ## A fold -/

/-- What every step of a fold keeps, the fold keeps. -/
theorem foldlM_invariant {f : β → α → Except ε β} {P : β → Prop} {l : List α} {b r : β}
    (h : l.foldlM f b = .ok r) (hb : P b)
    (hstep : ∀ a ∈ l, ∀ c d, P c → f c a = .ok d → P d) : P r := by
  induction l generalizing b with
  | nil => exact Except.ok.inj h ▸ hb
  | cons a l ih =>
      rw [List.foldlM_cons] at h
      obtain ⟨c, hc, h⟩ := bind_eq_ok.mp h
      exact ih h (hstep a List.mem_cons_self b c hb hc)
        (fun x hx => hstep x (List.mem_cons_of_mem _ hx))

theorem foldlM_ok_of_forall {f : β → α → Except ε β} {g : β → α → β} {l : List α}
    (h : ∀ a ∈ l, ∀ b, f b a = .ok (g b a)) (b : β) : l.foldlM f b = .ok (l.foldl g b) := by
  induction l generalizing b with
  | nil => rfl
  | cons a l ih =>
      rw [List.foldlM_cons, h a List.mem_cons_self b]
      exact ih (fun x hx => h x (List.mem_cons_of_mem _ hx)) (g b a)

end BomAssembly
