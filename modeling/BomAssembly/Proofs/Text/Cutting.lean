import BomAssembly.Text.Split

/-!
# Cutting undoes joining

A text that was put together with a separator is cut into the same parts again, as long as no part
holds the separator. For `pieces` this is said of all parts at once, for `cutFirst` and `cutLast` of
the one cut that they make.

The pieces themselves never hold the separator, so joining and cutting are inverse both ways
(`joined_pieces` is the other one).
-/

namespace BomAssembly.Text

/-! ## All pieces -/

/-- What holds no separator goes to the first piece. -/
theorem pieces_append_of_not_mem {sep : Char} {a b p : List Char} {ps : List (List Char)}
    (h : sep ∉ a) (hb : pieces sep b = p :: ps) : pieces sep (a ++ b) = (a ++ p) :: ps := by
  induction a with
  | nil => exact hb
  | cons c cs ih =>
      have hc : c ≠ sep := fun hc => h (hc ▸ List.mem_cons_self)
      rw [List.cons_append, pieces, ih (fun hm => h (List.mem_cons_of_mem _ hm))]
      exact if_neg hc

theorem pieces_of_not_mem {sep : Char} {cs : List Char} (h : sep ∉ cs) : pieces sep cs = [cs] := by
  have hp := pieces_append_of_not_mem (b := []) h rfl
  rwa [List.append_nil] at hp

theorem pieces_sep_cons (sep : Char) (b : List Char) :
    pieces sep (sep :: b) = [] :: pieces sep b := by
  rw [pieces]
  split
  · next hb => exact absurd hb (pieces_ne_nil sep b)
  · next p ps hb => rw [if_pos rfl, hb]

/-- The text before a separator is the first piece. -/
theorem pieces_append {sep : Char} {a b : List Char} (h : sep ∉ a) :
    pieces sep (a ++ sep :: b) = a :: pieces sep b := by
  rw [pieces_append_of_not_mem h (pieces_sep_cons sep b), List.append_nil]

/-- A text is cut at a separator, wherever that stands. -/
theorem pieces_append_sep (sep : Char) (a b : List Char) :
    pieces sep (a ++ sep :: b) = pieces sep a ++ pieces sep b := by
  induction a with
  | nil => exact pieces_sep_cons sep b
  | cons c cs ih =>
      obtain ⟨p, ps, hp⟩ := List.exists_cons_of_ne_nil (pieces_ne_nil sep cs)
      rw [List.cons_append, pieces, pieces, ih, hp]
      dsimp only [List.cons_append]
      split <;> rfl

theorem pieces_joined {sep : Char} {ps : List (List Char)} (hne : ps ≠ [])
    (h : ∀ p ∈ ps, sep ∉ p) : pieces sep (joined [sep] ps) = ps := by
  induction ps with
  | nil => exact absurd rfl hne
  | cons p ps ih =>
      cases ps with
      | nil => exact pieces_of_not_mem (h p List.mem_cons_self)
      | cons q qs =>
          have hrest : ∀ r ∈ q :: qs, sep ∉ r := fun r hr => h r (List.mem_cons_of_mem _ hr)
          rw [joined_cons_cons, List.append_assoc, List.singleton_append,
            pieces_append (h p List.mem_cons_self), ih (List.cons_ne_nil _ _) hrest]

/-- No piece holds the separator. -/
theorem not_mem_of_mem_pieces {sep : Char} {cs p : List Char} (h : p ∈ pieces sep cs) :
    sep ∉ p := by
  induction cs generalizing p with
  | nil => simp_all [pieces]
  | cons c cs ih =>
      rw [pieces] at h
      split at h
      · simp_all
      · next q qs hq =>
        rw [hq] at ih
        split at h
        · rcases List.mem_cons.mp h with h | h
          · simp [h]
          · exact ih h
        · next hc =>
          rcases List.mem_cons.mp h with h | h
          · subst h
            intro hm
            rcases List.mem_cons.mp hm with hm | hm
            · exact hc hm.symm
            · exact ih List.mem_cons_self hm
          · exact ih (List.mem_cons_of_mem _ h)

theorem mem_of_mem_pieces {sep x : Char} {cs p : List Char} (h : p ∈ pieces sep cs)
    (hx : x ∈ p) : x ∈ cs := by
  induction cs generalizing p with
  | nil => simp_all [pieces]
  | cons c cs ih =>
      rw [pieces] at h
      split at h
      · simp_all
      · next q qs hq =>
        rw [hq] at ih
        split at h
        · rcases List.mem_cons.mp h with h | h
          · exact absurd (h ▸ hx) List.not_mem_nil
          · exact List.mem_cons_of_mem _ (ih h hx)
        · rcases List.mem_cons.mp h with h | h
          · subst h
            rcases List.mem_cons.mp hx with hx | hx
            · exact hx ▸ List.mem_cons_self
            · exact List.mem_cons_of_mem _ (ih List.mem_cons_self hx)
          · exact List.mem_cons_of_mem _ (ih (List.mem_cons_of_mem _ h) hx)

/-- A text without an empty piece is not empty. -/
theorem ne_nil_of_pieces {sep : Char} {cs : List Char} (h : ∀ p ∈ pieces sep cs, p ≠ []) :
    cs ≠ [] := by
  intro hcs
  subst hcs
  exact h [] List.mem_cons_self rfl

/-! ## Joined texts -/

/-- What a joined text holds comes from a part or from the separator. -/
theorem mem_of_mem_joined {sep : List Char} {pss : List (List Char)} {x : Char}
    (h : x ∈ joined sep pss) : x ∈ sep ∨ ∃ ps ∈ pss, x ∈ ps := by
  induction pss with
  | nil => exact absurd h List.not_mem_nil
  | cons q qs ih =>
      cases qs with
      | nil => exact .inr ⟨q, List.mem_cons_self, h⟩
      | cons r rs =>
          rw [joined_cons_cons, List.mem_append, List.mem_append] at h
          rcases h with (h | h) | h
          · exact .inr ⟨q, List.mem_cons_self, h⟩
          · exact .inl h
          · rcases ih h with h | ⟨p, hp, hx⟩
            · exact .inl h
            · exact .inr ⟨p, List.mem_cons_of_mem _ hp, hx⟩

/-! ## One cut -/

theorem cutFirst_append {sep : Char} {a b : List Char} (h : sep ∉ a) :
    cutFirst sep (a ++ sep :: b) = some (a, b) := by
  induction a with
  | nil => simp [cutFirst]
  | cons c cs ih =>
      have hc : c ≠ sep := fun hc => h (hc ▸ List.mem_cons_self)
      rw [List.cons_append, cutFirst, if_neg hc, ih (fun hm => h (List.mem_cons_of_mem _ hm))]
      rfl

theorem cutFirst_of_not_mem {sep : Char} {cs : List Char} (h : sep ∉ cs) :
    cutFirst sep cs = none := by
  induction cs with
  | nil => rfl
  | cons c cs ih =>
      rw [List.mem_cons, not_or] at h
      rw [cutFirst, if_neg (Ne.symm h.1), ih h.2]
      rfl

theorem cutLast_of_not_mem {sep : Char} {cs : List Char} (h : sep ∉ cs) :
    cutLast sep cs = none := by
  induction cs with
  | nil => rfl
  | cons c cs ih =>
      have hc : c ≠ sep := fun hc => h (hc ▸ List.mem_cons_self)
      rw [cutLast, ih (fun hm => h (List.mem_cons_of_mem _ hm))]
      simp [hc]

theorem cutLast_append {sep : Char} {a b : List Char} (h : sep ∉ b) :
    cutLast sep (a ++ sep :: b) = some (a, b) := by
  induction a with
  | nil => rw [List.nil_append, cutLast, cutLast_of_not_mem h, if_pos rfl]
  | cons c cs ih => rw [List.cons_append, cutLast, ih]

/-- A cut loses only the separator. -/
theorem eq_of_cutLast {sep : Char} {cs a b : List Char} (h : cutLast sep cs = some (a, b)) :
    cs = a ++ sep :: b := by
  induction cs generalizing a b with
  | nil => exact absurd h (by simp [cutLast])
  | cons c cs ih =>
      rw [cutLast] at h
      split at h
      · next x y hxy =>
        obtain ⟨rfl, rfl⟩ := Prod.mk.inj (Option.some.inj h)
        rw [ih hxy, List.cons_append]
      · split at h
        · next hc =>
          obtain ⟨rfl, rfl⟩ := Prod.mk.inj (Option.some.inj h)
          rw [hc, List.nil_append]
        · exact absurd h (by simp)

theorem not_mem_of_cutLast_eq_none {sep : Char} {cs : List Char} (h : cutLast sep cs = none) :
    sep ∉ cs := by
  induction cs with
  | nil => exact List.not_mem_nil
  | cons c cs ih =>
      rw [cutLast] at h
      split at h
      · exact absurd h (by simp)
      · next hrest =>
        split at h
        · exact absurd h (by simp)
        · next hc =>
          rw [List.mem_cons, not_or]
          exact ⟨fun heq => hc heq.symm, ih hrest⟩

/-- Behind the last separator there is none. -/
theorem not_mem_of_cutLast {sep : Char} {cs a b : List Char} (h : cutLast sep cs = some (a, b)) :
    sep ∉ b := by
  induction cs generalizing a b with
  | nil => exact absurd h (by simp [cutLast])
  | cons c cs ih =>
      rw [cutLast] at h
      split at h
      · next x y hxy =>
        obtain ⟨rfl, rfl⟩ := Prod.mk.inj (Option.some.inj h)
        exact ih hxy
      · next hrest =>
        split at h
        · obtain ⟨rfl, rfl⟩ := Prod.mk.inj (Option.some.inj h)
          exact not_mem_of_cutLast_eq_none hrest
        · exact absurd h (by simp)

/-- Two texts that are equal are cut at the same place. -/
theorem append_sep_inj {sep : Char} {a b c d : List Char} (hb : sep ∉ b) (hd : sep ∉ d)
    (h : a ++ [sep] ++ b = c ++ [sep] ++ d) : a = c ∧ b = d := by
  rw [List.append_assoc, List.append_assoc, List.singleton_append, List.singleton_append] at h
  have hcut := cutLast_append (a := a) hb
  rw [h, cutLast_append hd] at hcut
  exact Prod.mk.inj (Option.some.inj hcut.symm)

/-- What ends in a separator is not completed by what holds none. -/
theorem prefix_of_prefix_append {sep : Char} {s t d : List Char} (hd : sep ∉ d)
    (h : s ++ [sep] <+: t ++ d) : s ++ [sep] <+: t := by
  rcases List.prefix_or_prefix_of_prefix h (List.prefix_append t d) with hs | ⟨u, hu⟩
  · exact hs
  · rw [← hu] at h
    have hud : u <+: d := (List.prefix_append_right_inj t).mp h
    rcases List.eq_nil_or_concat u with rfl | ⟨v, x, rfl⟩
    · have heq : t = s ++ [sep] := by rw [← hu, List.append_nil]
      exact heq ▸ List.prefix_refl t
    · -- the separator would be the last of what is added
      rw [List.concat_eq_append] at hu hud
      rw [← List.append_assoc] at hu
      have hx : [x] = [sep] := List.append_inj_right' hu rfl
      have hmem : sep ∈ v ++ [x] := by simp [hx]
      exact absurd (hud.subset hmem) hd

/-! ## Parts -/

theorem occurs_iff {part cs : List Char} : occurs part cs = true ↔ part <:+: cs := by
  induction cs with
  | nil => rw [occurs, List.isEmpty_iff, List.infix_nil]
  | cons c cs ih =>
      rw [occurs, Bool.or_eq_true, ih, List.isPrefixOf_iff_prefix, List.infix_cons_iff]

end BomAssembly.Text
