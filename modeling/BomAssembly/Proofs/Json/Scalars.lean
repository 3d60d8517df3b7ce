import BomAssembly.Json.Reader
import BomAssembly.Json.Writer
import BomAssembly.Proofs.Number.Spelling

/-!
# Strings and numbers that were written

A string is read back whatever its characters are: what cannot stand in a string stands there escaped
(`stringBody_writeString`). A number is read back whenever the text goes on with something that is no
part of a number, if it is an integer of 64 bits, signed or unsigned, or the zero with a minus sign
that a text without a fraction can mean as well (`JsonNumber.Whole.readsBack`).
-/

namespace BomAssembly.Json

/-! ## Strings -/

/-- Put a character in front of what was read. -/
def prepend (c : Char) (r : List Char × List Char) : List Char × List Char := (c :: r.1, r.2)

/-- An escaped code that is no half of a pair stands for its character, whatever comes behind. -/
theorem stringBody_code {a b c d : Char} {n : Nat} (hcode : hex4? a b c d = some n)
    (hhigh : isHighHalf n = false) (hlow : isLowHalf n = false) (rest : List Char) :
    stringBody ('\\' :: 'u' :: a :: b :: c :: d :: rest) =
      (stringBody rest).map (prepend (Char.ofNat n)) := by
  by_cases hnext : ∃ e f g h more, rest = '\\' :: 'u' :: e :: f :: g :: h :: more
  · -- another code comes behind, which might have been the other half
    obtain ⟨e, f, g, h, more, rfl⟩ := hnext
    rw [stringBody, hcode]
    dsimp only
    rw [if_neg (by simp [hhigh]), if_neg (by simp [hlow])]
    rfl
  · rw [stringBody.eq_4, hcode]
    · dsimp only
      rw [if_neg (by simp [hhigh, hlow])]
      rfl
    · intro e f g h more heq
      exact hnext ⟨e, f, g, h, more, heq⟩

theorem stringBody_escaped {c x : Char} (hc : c ≠ 'u') (h : escaped? c = some x)
    (rest : List Char) :
    stringBody ('\\' :: c :: rest) = (stringBody rest).map (prepend x) := by
  rw [stringBody.eq_5, h]
  · rfl
  · intro _ _ _ _ _ _ _ _ _ heq
    exact absurd heq hc
  · intro _ _ _ _ _ heq
    exact absurd heq hc

theorem stringBody_plain {c : Char} (hquote : c ≠ '"') (hslash : c ≠ '\\') (hc : 0x20 ≤ c.toNat)
    (rest : List Char) : stringBody (c :: rest) = (stringBody rest).map (prepend c) := by
  rw [stringBody.eq_6]
  · rw [if_neg (by simpa [hslash] using hc)]
    rfl
  · exact hquote
  all_goals
    intros
    exact hslash ‹_›

/-- The digits of a control character. -/
theorem hex4?_lowHex {n : Nat} (h : n < 0x20) :
    hex4? '0' '0' (lowHex (n / 16)) (lowHex (n % 16)) = some n := by
  have key : ∀ m : Fin 0x20,
      hex4? '0' '0' (lowHex (m.val / 16)) (lowHex (m.val % 16)) = some m.val := by decide
  exact key ⟨n, h⟩

theorem stringBody_writeChar (c : Char) (rest : List Char) :
    stringBody (writeChar c ++ rest) = (stringBody rest).map (prepend c) := by
  unfold writeChar
  split
  case h_8 hquote hslash _ _ _ _ _ =>
    split
    · next hcontrol =>
      have hhalf : isHighHalf c.toNat = false ∧ isLowHalf c.toNat = false := by
        simp only [isHighHalf, isLowHalf, Bool.and_eq_false_iff, decide_eq_false_iff_not]
        omega
      have hcode := stringBody_code (hex4?_lowHex hcontrol) hhalf.1 hhalf.2 rest
      rw [Char.ofNat_toNat] at hcode
      exact hcode
    · next hplain => exact stringBody_plain hquote hslash (Nat.not_lt.mp hplain) rest
  all_goals exact stringBody_escaped (by decide) rfl rest

theorem stringBody_flatMap (cs rest : List Char) :
    stringBody (cs.flatMap writeChar ++ '"' :: rest) = some (cs, rest) := by
  induction cs with
  | nil => rw [List.flatMap_nil, List.nil_append, stringBody]
  | cons c cs ih =>
      rw [List.flatMap_cons, List.append_assoc, stringBody_writeChar, ih]
      rfl

/-! ## Numbers -/

open Number (digitsOf head?_toDigits intText isDigit_of_mem_toDigits ofDigits_toDigits)

/-- A text that does not go on with a part of a number. -/
def EndsNumber (rest : List Char) : Prop :=
  ∀ c, rest.head? = some c → c.isDigit = false ∧ c ≠ '.' ∧ c ≠ 'e' ∧ c ≠ 'E'

section Ends

variable {rest : List Char} (hrest : EndsNumber rest)

include hrest

theorem takeDigits_append {ds : List Char} (hds : ∀ c ∈ ds, c.isDigit = true) :
    takeDigits (ds ++ rest) = (ds, rest) := by
  have hnone : rest.takeWhile Char.isDigit = [] ∧ rest.dropWhile Char.isDigit = rest := by
    cases rest with
    | nil => exact ⟨rfl, rfl⟩
    | cons c cs =>
        have hc : ¬ c.isDigit = true := by simp [(hrest c rfl).1]
        exact ⟨List.takeWhile_cons_of_neg hc, List.dropWhile_cons_of_neg hc⟩
  rw [takeDigits, List.takeWhile_append_of_pos hds, List.dropWhile_append_of_pos hds, hnone.1,
    hnone.2, List.append_nil]

theorem takeWhole_append (n : Nat) :
    takeWhole (Nat.toDigits 10 n ++ rest) = some (Nat.toDigits 10 n, rest) := by
  have hsome : someDigits (Nat.toDigits 10 n ++ rest) = some (Nat.toDigits 10 n, rest) := by
    rw [someDigits, takeDigits_append hrest fun c hc => isDigit_of_mem_toDigits hc]
    split
    · next heq => exact absurd (congrArg Prod.fst heq) Nat.toDigits_ne_nil
    · next heq => rw [heq]
  rw [takeWhole, hsome]
  split
  · next heq =>
    -- no zero stands in front of other digits
    have hdigits := congrArg Prod.fst (Option.some.inj heq)
    dsimp only at hdigits
    rcases Nat.eq_zero_or_pos n with rfl | hpos
    · rw [Nat.toDigits_zero] at hdigits
      exact absurd hdigits (by simp)
    · exact absurd (by rw [hdigits]; rfl) (head?_toDigits hpos)
  · rfl

theorem takeFraction_rest : takeFraction rest = some (none, rest) := by
  unfold takeFraction
  split
  · exact absurd rfl (hrest '.' rfl).2.1
  · rfl

theorem takeExponent_rest : takeExponent rest = some (none, rest) := by
  unfold takeExponent
  split
  · next c cs =>
    have hc := (hrest c rfl).2.2
    rw [if_neg (by simp [hc])]
  · rfl

/-- The digits of a natural number. -/
theorem takeNumber_digits (n : Nat) : takeNumber (Nat.toDigits 10 n ++ rest) =
    some (⟨false, Nat.toDigits 10 n, none, none⟩, rest) := by
  rw [takeNumber]
  · rw [takeWhole_append hrest]
    dsimp only [Option.bind_eq_bind, Option.bind_some]
    rw [takeFraction_rest hrest]
    dsimp only [Option.bind_some]
    rw [takeExponent_rest hrest]
    rfl
  · intro cs heq
    -- a sign is no digit
    have hhead : (Nat.toDigits 10 n).head? = some '-' := by
      rw [← List.head?_append_of_ne_nil _ Nat.toDigits_ne_nil, heq]
      rfl
    exact absurd (isDigit_of_mem_toDigits (List.mem_of_mem_head? hhead)) (by decide)

/-- The digits of a negative number. -/
theorem takeNumber_signed (n : Nat) : takeNumber ('-' :: (Nat.toDigits 10 n ++ rest)) =
    some (⟨true, Nat.toDigits 10 n, none, none⟩, rest) := by
  rw [takeNumber, takeWhole_append hrest]
  dsimp only [Option.bind_eq_bind, Option.bind_some]
  rw [takeFraction_rest hrest]
  dsimp only [Option.bind_some]
  rw [takeExponent_rest hrest]
  rfl

end Ends

theorem le_foldl_digits (cs : List Char) (f : Nat) :
    f ≤ cs.foldl (fun n c => n * 10 + digitValue c) f := by
  induction cs generalizing f with
  | nil => exact Nat.le_refl f
  | cons c cs ih =>
      have hmore := ih (f * 10 + digitValue c)
      rw [List.foldl_cons]
      omega

/-- Digits whose number is not too great are taken as they are. -/
theorem accumulate_eq {limit : Nat} (cs : List Char) {f : Nat}
    (h : cs.foldl (fun n c => n * 10 + digitValue c) f ≤ limit) :
    accumulate limit cs f = (cs.foldl (fun n c => n * 10 + digitValue c) f, cs.length, 0) := by
  induction cs generalizing f with
  | nil => rfl
  | cons c cs ih =>
      rw [List.foldl_cons] at h
      have hle := le_foldl_digits cs (f * 10 + digitValue c)
      have hfits : ¬ f * 10 + digitValue c > limit := by omega
      rw [accumulate, List.foldl_cons]
      dsimp only
      rw [if_neg hfits, ih h]
      rfl

theorem value?_digits {n : Nat} (h : n ≤ maxSignificand) (negative : Bool) :
    (NumberText.mk negative (Nat.toDigits 10 n) none none).value? = integerValue negative n := by
  have hnumber : (Nat.toDigits 10 n).foldl (fun n c => n * 10 + digitValue c) 0 = n :=
    ofDigits_toDigits n
  rw [NumberText.value?, accumulate_eq _ (by rw [hnumber]; exact h), hnumber]
  rfl

end BomAssembly.Json

namespace BomAssembly.JsonNumber

open Json (EndsNumber takeNumber writeNumber)
open Number (digitsOf intText isDigit_of_mem_toDigits)

/-! ## Numbers that are read back -/

/-- A number that a text without a fraction can mean: an integer of 64 bits, signed or unsigned, or
zero with a minus sign. -/
def Whole : JsonNumber → Prop
  | .int i => -(Nat.pow 2 63 : Int) ≤ i ∧ i < (Nat.pow 2 64 : Int)
  | .float x => x = .zero true

/-- A number whose text is read as the number. -/
structure ReadsBack (n : JsonNumber) : Prop where
  starts : ∃ c cs, writeNumber n = c :: cs ∧ (c.isDigit = true ∨ c = '-')
  reads : ∀ rest, EndsNumber rest →
    ∃ t, takeNumber (writeNumber n ++ rest) = some (t, rest) ∧ t.value? = some n

theorem readsBack_natCast {n : Nat} (h : n < Nat.pow 2 64) : (int n).ReadsBack := by
  have hfits : n ≤ Json.maxSignificand := by
    rw [Json.maxSignificand]
    omega
  have htext : writeNumber (.int n) = Nat.toDigits 10 n := by
    show (if (n : Int) < 0 then '-' :: Nat.toDigits 10 n else Nat.toDigits 10 n) = _
    rw [if_neg (by omega)]
  refine ⟨?_, fun rest hrest => ⟨⟨false, Nat.toDigits 10 n, none, none⟩, ?_, ?_⟩⟩
  · have hne : Nat.toDigits 10 n ≠ [] := Nat.toDigits_ne_nil
    obtain ⟨c, cs, hdigits⟩ := List.exists_cons_of_ne_nil hne
    rw [htext, hdigits]
    exact ⟨c, cs, rfl, .inl (isDigit_of_mem_toDigits (by rw [hdigits]; exact List.mem_cons_self))⟩
  · rw [htext]
    exact Json.takeNumber_digits hrest n
  · rw [Json.value?_digits hfits]
    rfl

theorem readsBack_neg {n : Nat} (hpos : 0 < n) (h : n ≤ Nat.pow 2 63) :
    (int (-(n : Int))).ReadsBack := by
  have htext : writeNumber (.int (-(n : Int))) = '-' :: Nat.toDigits 10 n := by
    show (if -(n : Int) < 0 then '-' :: Nat.toDigits 10 (-(n : Int)).natAbs else _) = _
    rw [if_pos (by omega), Int.natAbs_neg, Int.natAbs_natCast]
  refine ⟨?_, fun rest hrest => ⟨⟨true, Nat.toDigits 10 n, none, none⟩, ?_, ?_⟩⟩
  · rw [htext]
    exact ⟨_, _, rfl, .inr rfl⟩
  · rw [htext]
    exact Json.takeNumber_signed hrest n
  · have hfits : n ≤ Json.maxSignificand := by
      have hpow : Nat.pow 2 63 ≤ Json.maxSignificand := by decide
      omega
    rw [Json.value?_digits hfits, Json.integerValue, if_neg (by decide), if_pos ⟨hpos, h⟩]

theorem readsBack_zero : (float (.zero true)).ReadsBack := by
  refine ⟨⟨_, _, rfl, .inr rfl⟩, fun rest hrest => ⟨⟨true, ['0'], some ['0'], none⟩, ?_, ?_⟩⟩
  · have hwhole : Json.takeWhole ('0' :: '.' :: '0' :: rest) = some (['0'], '.' :: '0' :: rest) := by
      have hdigits : Json.takeDigits ('0' :: '.' :: '0' :: rest) = (['0'], '.' :: '0' :: rest) := rfl
      rw [Json.takeWhole, Json.someDigits, hdigits]
      rfl
    have hfraction : Json.takeFraction ('.' :: '0' :: rest) = some (some ['0'], rest) := by
      have hzero : ∀ c ∈ ['0'], c.isDigit = true := by
        intro c hc
        rw [List.mem_singleton.mp hc]
        rfl
      have hdigits : Json.takeDigits ('0' :: rest) = (['0'], rest) :=
        Json.takeDigits_append hrest hzero
      rw [Json.takeFraction, Json.someDigits, hdigits]
      rfl
    have htext : writeNumber (float (.zero true)) ++ rest = '-' :: '0' :: '.' :: '0' :: rest := rfl
    rw [htext, takeNumber, hwhole]
    dsimp only [Option.bind_eq_bind, Option.bind_some]
    rw [hfraction]
    dsimp only [Option.bind_some]
    rw [Json.takeExponent_rest hrest]
    rfl
  · -- a power of ten leaves zero as it is
    have hscale : Json.scaleBy (.zero false) (-1) = some (.zero false) := by
      have hzero : (Number.Binary64.zero false).isZero = true := rfl
      rw [Json.scaleBy, if_pos hzero]
    show ((Json.scaleBy (.zero false) (-1)).map fun x => float (x.withSign true)) = _
    rw [hscale]
    rfl

/-- **A whole number is read back.** -/
theorem Whole.readsBack {n : JsonNumber} (h : n.Whole) : n.ReadsBack := by
  cases n with
  | int i =>
      obtain ⟨hlow, hhigh⟩ : -(Nat.pow 2 63 : Int) ≤ i ∧ i < (Nat.pow 2 64 : Int) := h
      by_cases hneg : i < 0
      · obtain ⟨n, rfl⟩ : ∃ n : Nat, i = -(n : Int) := ⟨i.natAbs, by omega⟩
        exact readsBack_neg (by omega) (by omega)
      · obtain ⟨n, rfl⟩ : ∃ n : Nat, i = (n : Int) := ⟨i.toNat, by omega⟩
        exact readsBack_natCast (by omega)
  | float x =>
      obtain rfl : x = .zero true := h
      exact readsBack_zero

end BomAssembly.JsonNumber
