import BomAssembly.Proofs.Text.Cutting
import BomAssembly.Text.LetterCase

/-!
# Lower case is settled after one pass

Putting a text into lower case a second time changes nothing. Most of this is a fact about the table
of letter case: no run of it maps a character to one that the table maps on (`Misses`, checked for
every two runs). The two characters with a rule of their own, the capital sigma and the dotted
capital i, go to characters that stay.

Lower case also keeps the shape that readers of names rely on: a slash or an underscore comes from
itself only, and the pieces between slashes are empty where they were.
-/

namespace BomAssembly.Text

/-! ## The table -/

/-- What a run maps a code point to. -/
def CaseRun.image (r : CaseRun) (n : Nat) : Nat := (n + r.distance).toNat

/-- A run of one character. -/
def CaseRun.single (c : Char) : CaseRun := ⟨c.toNat, c.toNat, 1, 0⟩

/-- No image of one run is in the other: the images lie on one side of it, or between its members
because both leave out every other code point. -/
def CaseRun.misses (r : CaseRun) : CaseRun → Bool :=
  let low := r.image r.first
  let high := r.image r.last
  let sparse := r.stride % 2 == 0 || r.first == r.last
  fun s => high.blt s.first || s.last.blt low ||
    (sparse && s.stride % 2 == 0 && (low + s.first) % 2 == 1)

/-- All images under the run are characters. -/
def CaseRun.Fits (r : CaseRun) : Prop :=
  0 ≤ r.first + r.distance ∧ r.last + r.distance < 0xD800 ∨
    (0xDFFF : Int) < r.first + r.distance ∧ r.last + r.distance < 0x110000

instance (r : CaseRun) : Decidable r.Fits := by
  unfold CaseRun.Fits
  infer_instance

/-- What lower case has no image in: the slash, the underscore, the dotted capital i, and all that
has a lower case. -/
def unreached : List CaseRun := .single '/' :: .single '_' :: .single 'İ' :: lowering

theorem lowering_misses : (lowering.all fun r => unreached.all r.misses) = true := by
  decide +kernel

theorem lowering_fits : ∀ r ∈ lowering, r.Fits := by decide +kernel

theorem CaseRun.mod_two_of_holds {r : CaseRun} {n : Nat} (h : r.holds n = true)
    (hr : r.stride % 2 = 0) : n % 2 = r.first % 2 := by
  simp only [CaseRun.holds, Bool.and_eq_true, decide_eq_true_eq, beq_iff_eq] at h
  have hmod : (n - r.first) % 2 = 0 := by
    rw [← Nat.mod_mod_of_dvd _ (Nat.dvd_of_mod_eq_zero hr), h.2]
  omega

theorem CaseRun.bounds_of_holds {r : CaseRun} {n : Nat} (h : r.holds n = true) :
    r.first ≤ n ∧ n ≤ r.last := by
  simp only [CaseRun.holds, Bool.and_eq_true, decide_eq_true_eq] at h
  exact h.1

theorem CaseRun.holds_single (c d : Char) : (CaseRun.single c).holds d.toNat = true ↔ d = c := by
  constructor
  · intro h
    have hb := CaseRun.bounds_of_holds h
    exact Char.toNat_inj.mp (Nat.le_antisymm hb.2 hb.1)
  · intro h
    simp [h, CaseRun.holds, CaseRun.single]

/-- The image of a member is no member of a run that is missed. -/
theorem CaseRun.not_holds_image {r s : CaseRun} {n : Nat} (hr : r.Fits)
    (h : r.misses s = true) (hn : r.holds n = true) : s.holds (r.image n) = false := by
  rw [Bool.eq_false_iff]
  intro hs
  have hrb := CaseRun.bounds_of_holds hn
  have hsb := CaseRun.bounds_of_holds hs
  simp only [CaseRun.misses, CaseRun.image, Bool.or_eq_true, Bool.and_eq_true, Nat.blt_eq,
    beq_iff_eq] at h
  unfold CaseRun.Fits at hr
  unfold CaseRun.image at hsb
  -- all images lie below the other run, all lie above it, or image and member differ in parity
  rcases h with (h | h) | ⟨⟨hsparse, hstride⟩, hodd⟩
  · omega
  · omega
  · have hs2 := CaseRun.mod_two_of_holds hs hstride
    unfold CaseRun.image at hs2
    rcases hsparse with hsparse | hsparse
    · have hn2 := CaseRun.mod_two_of_holds hn hsparse
      omega
    · omega

theorem holds_of_find? {runs : List CaseRun} {r : CaseRun} {n : Nat}
    (h : runs.find? (fun r => r.holds n) = some r) : r.holds n = true :=
  List.find?_some (p := fun r : CaseRun => r.holds n) h

/-- Either the table leaves a character alone, or it maps it to one that it leaves alone. -/
theorem mapped_lowering (c : Char) :
    (mapped lowering c = c ∧ ∀ r ∈ lowering, r.holds c.toNat = false) ∨
      ∀ s ∈ unreached, s.holds (mapped lowering c).toNat = false := by
  unfold mapped
  split
  · next r hr =>
    refine .inr fun s hs => ?_
    have hmem := List.mem_of_find?_eq_some hr
    have hholds := holds_of_find? hr
    have hb := CaseRun.bounds_of_holds hholds
    have hfits := lowering_fits r hmem
    have hvalid : (r.image c.toNat).isValidChar := by
      unfold CaseRun.image
      rcases hfits with h | h
      · exact .inl (by omega)
      · exact .inr (by omega)
    have hmisses := List.all_eq_true.mp (List.all_eq_true.mp lowering_misses r hmem) s hs
    -- the image is a code point, so making a character of it loses nothing
    have himage : (Char.ofNat (r.image c.toNat)).toNat = r.image c.toNat := by
      rw [Char.ofNat, dif_pos hvalid]
      rfl
    exact himage ▸ CaseRun.not_holds_image hfits hmisses hholds
  · next hnone =>
    refine .inl ⟨rfl, fun r hr => ?_⟩
    simpa using List.find?_eq_none.mp hnone r hr

/-! ## One character -/

/-- A character that lower case leaves as it is. -/
def Lowered (c : Char) : Prop := ∀ s ∈ CaseRun.single 'İ' :: lowering, s.holds c.toNat = false

instance (c : Char) : Decidable (Lowered c) := by
  unfold Lowered
  infer_instance

theorem Lowered.mapped_eq {c : Char} (h : Lowered c) : mapped lowering c = c := by
  unfold mapped
  split
  · next r hr =>
    have hfalse := h r (List.mem_cons_of_mem _ (List.mem_of_find?_eq_some hr))
    exact absurd (holds_of_find? hr) (by rw [hfalse]; decide)
  · rfl

theorem lowering_tail_first : ∀ r ∈ lowering.tail, 0x80 ≤ r.first := by decide +kernel

/-- For ASCII the table says what `Char.toLower` says. -/
theorem toLower_eq_mapped {c : Char} (h : c.toNat < 0x80) : c.toLower = mapped lowering c := by
  have hhead : lowering = ⟨0x41, 0x5A, 1, 32⟩ :: lowering.tail := rfl
  have htail : lowering.tail.find? (fun r => r.holds c.toNat) = none := by
    rw [List.find?_eq_none]
    intro r hr hholds
    have hb := CaseRun.bounds_of_holds hholds
    have hfirst := lowering_tail_first r hr
    omega
  have key : ∀ n : Fin 0x80, (Char.ofNat n).toLower =
      if (CaseRun.mk 0x41 0x5A 1 32).holds n then Char.ofNat (n + 32) else Char.ofNat n := by
    decide
  have hc := key ⟨c.toNat, h⟩
  rw [Char.ofNat_toNat] at hc
  rw [hc, mapped, hhead, List.find?_cons, htail]
  cases (CaseRun.mk 0x41 0x5A 1 32).holds c.toNat with
  | true => rfl
  | false => rfl

/-- What stands for a character in lower case, between the characters before and after it. -/
def lowerImage (before : List Char) (c : Char) (rest : List Char) : List Char :=
  if c = 'Σ' then [if meetsCased before && !meetsCased rest then 'ς' else 'σ']
  else if c = 'İ' then ['i', Char.ofNat 0x307]
  else [mapped lowering c]

theorem lowerAfter_cons (before : List Char) (c : Char) (rest : List Char) :
    lowerAfter before (c :: rest) = lowerImage before c rest ++ lowerAfter (c :: before) rest := by
  rw [lowerAfter]
  unfold lowerImage
  by_cases hc : c.toNat < 0x80
  · have hsigma : c ≠ 'Σ' := fun h => absurd (h ▸ hc) (by decide)
    have hdotted : c ≠ 'İ' := fun h => absurd (h ▸ hc) (by decide)
    simp only [if_pos hc, if_neg hsigma, if_neg hdotted, toLower_eq_mapped hc]
  · simp only [if_neg hc]

theorem lowerImage_of_lowered {c : Char} (h : Lowered c) (before rest : List Char) :
    lowerImage before c rest = [c] := by
  have hsigma : c ≠ 'Σ' := fun hc => absurd (hc ▸ h) (by decide)
  have hdotted : c ≠ 'İ' := fun hc => absurd (hc ▸ h) (by decide)
  rw [lowerImage, if_neg hsigma, if_neg hdotted, h.mapped_eq]

theorem lowerImage_ne_nil (before : List Char) (c : Char) (rest : List Char) :
    lowerImage before c rest ≠ [] := by
  unfold lowerImage
  split
  · exact List.cons_ne_nil _ _
  · split <;> exact List.cons_ne_nil _ _

/-- What stands for a character stays, and a slash or an underscore stands for itself only. -/
theorem lowerImage_lowered {before rest : List Char} {c x : Char}
    (h : x ∈ lowerImage before c rest) : Lowered x ∧ (x = '/' ∨ x = '_' → x = c) := by
  unfold lowerImage at h
  -- the capital sigma and the dotted capital i have rules of their own; the rest is in the table
  split at h
  · have hx : x = 'ς' ∨ x = 'σ' := by
      rw [List.mem_singleton] at h
      split at h
      · exact .inl h
      · exact .inr h
    rcases hx with hx | hx <;> subst hx <;>
      exact ⟨by decide +kernel, fun hm => absurd hm (by decide)⟩
  · split at h
    · simp only [List.mem_cons, List.not_mem_nil, or_false] at h
      rcases h with hx | hx <;> subst hx <;>
        exact ⟨by decide +kernel, fun hm => absurd hm (by decide)⟩
    · next hdotted =>
      rw [List.mem_singleton] at h
      subst h
      rcases mapped_lowering c with ⟨heq, hc⟩ | hc
      · rw [heq]
        refine ⟨fun s hs => ?_, fun _ => rfl⟩
        rcases List.mem_cons.mp hs with hs | hs
        · rw [hs, Bool.eq_false_iff]
          exact fun hi => hdotted ((CaseRun.holds_single _ _).mp hi)
        · exact hc s hs
      · refine ⟨fun s hs => hc s (List.mem_cons_of_mem _ (List.mem_cons_of_mem _ hs)), ?_⟩
        rintro (hx | hx)
        · exact absurd ((CaseRun.holds_single _ _).mpr hx) (by
            rw [hc _ List.mem_cons_self]; decide)
        · exact absurd ((CaseRun.holds_single _ _).mpr hx) (by
            rw [hc _ (List.mem_cons_of_mem _ List.mem_cons_self)]; decide)

/-! ## Whole texts -/

theorem lowered_of_mem_lowerAfter {before cs : List Char} {x : Char}
    (h : x ∈ lowerAfter before cs) : Lowered x ∧ (x = '/' ∨ x = '_' → x ∈ cs) := by
  induction cs generalizing before with
  | nil => exact absurd h List.not_mem_nil
  | cons c cs ih =>
      rw [lowerAfter_cons, List.mem_append] at h
      rcases h with h | h
      · have hx := lowerImage_lowered h
        exact ⟨hx.1, fun hm => hx.2 hm ▸ List.mem_cons_self⟩
      · exact ⟨(ih h).1, fun hm => List.mem_cons_of_mem _ ((ih h).2 hm)⟩

theorem lowered_of_mem_lowercase {cs : List Char} {x : Char} (h : x ∈ lowercase cs) :
    Lowered x := (lowered_of_mem_lowerAfter h).1

/-- A slash or an underscore in lower case was there before. -/
theorem mem_of_mem_lowercase {cs : List Char} {x : Char} (h : x ∈ lowercase cs)
    (hx : x = '/' ∨ x = '_') : x ∈ cs := (lowered_of_mem_lowerAfter h).2 hx

theorem lowercase_of_lowered {cs : List Char} (h : ∀ c ∈ cs, Lowered c) : lowercase cs = cs := by
  -- what comes before matters to the sigma only, so the induction is for any of it
  have key : ∀ before : List Char, lowerAfter before cs = cs := by
    induction cs with
    | nil => exact fun _ => rfl
    | cons c cs ih =>
        intro before
        rw [lowerAfter_cons, lowerImage_of_lowered (h c List.mem_cons_self),
          ih (fun d hd => h d (List.mem_cons_of_mem _ hd))]
        rfl
  exact key []

/-- **Lower case is settled after one pass.** -/
theorem lowercase_lowercase (cs : List Char) : lowercase (lowercase cs) = lowercase cs :=
  lowercase_of_lowered fun _ h => lowered_of_mem_lowercase h

theorem lowercase_ne_nil {cs : List Char} (h : cs ≠ []) : lowercase cs ≠ [] := by
  obtain ⟨c, rest, rfl⟩ := List.exists_cons_of_ne_nil h
  rw [lowercase, lowerAfter_cons]
  intro hnil
  exact lowerImage_ne_nil _ _ _ (List.append_eq_nil_iff.mp hnil).1

/-- **The pieces between slashes are empty in lower case where they were.** -/
theorem isEmpty_pieces_lowercase (cs : List Char) :
    (pieces '/' (lowercase cs)).map List.isEmpty = (pieces '/' cs).map List.isEmpty := by
  have key : ∀ before : List Char,
      (pieces '/' (lowerAfter before cs)).map List.isEmpty = (pieces '/' cs).map List.isEmpty := by
    induction cs with
    | nil => exact fun _ => rfl
    | cons c cs ih =>
        intro before
        rw [lowerAfter_cons]
        by_cases hc : c = '/'
        · subst hc
          rw [lowerImage_of_lowered (by decide +kernel), List.singleton_append, pieces_sep_cons,
            pieces_sep_cons, List.map_cons, List.map_cons, ih]
        · have himage : '/' ∉ lowerImage before c cs := fun hm =>
            hc ((lowerImage_lowered hm).2 (.inl rfl)).symm
          obtain ⟨q, qs, hq⟩ := List.exists_cons_of_ne_nil
            (pieces_ne_nil '/' (lowerAfter (c :: before) cs))
          obtain ⟨p, ps, hp⟩ := List.exists_cons_of_ne_nil (pieces_ne_nil '/' cs)
          have htail := ih (c :: before)
          rw [hq, hp, List.map_cons, List.map_cons] at htail
          have hcons : pieces '/' (c :: cs) = (c :: p) :: ps :=
            pieces_append_of_not_mem (a := [c]) (by simpa using Ne.symm hc) hp
          rw [pieces_append_of_not_mem himage hq, hcons, List.map_cons, List.map_cons,
            (List.cons.inj htail).2]
          simp [lowerImage_ne_nil]
  exact key []

end BomAssembly.Text
