import BomAssembly.Proofs.Json.Written
import BomAssembly.Proofs.Yaml.Brackets

/-!
# Strings of JSON as quoted scalars

A string is read sign by sign, and each sign as the character that it means (`quotedAs_signs`). The
exception is a character that is written as the two halves of its number: there a half has no meaning
by itself, and the string is not read (`stuck_signs`). What stands in the string as it is must end no
line (`Flat`).
-/

namespace BomAssembly.Json

open Yaml (isBreak isSpacing Kept Position Lexer takeDouble shortEscape? spaces close_spaces
  not_atDocumentMark takeDouble_backslash)
open Yaml.Lexer (QuotedAs InWord)
open Text.Percent (hexValue?)

/-- A character that ends no line in YAML, or ends one in JSON too. -/
def Flat (c : Char) : Prop := c.toNat ≠ 0x85 ∧ c.toNat ≠ 0x2028 ∧ c.toNat ≠ 0x2029

instance : DecidablePred Flat := fun c =>
  inferInstanceAs (Decidable (c.toNat ≠ 0x85 ∧ c.toNat ≠ 0x2028 ∧ c.toNat ≠ 0x2029))

/-- Whether a character is written as the two halves of its number. -/
def Sign.isPair : Sign → Bool
  | .pair .. => true
  | _ => false

/-! ## Signs -/

theorem shortEscape?_of_escaped? {letter c : Char} (h : escaped? letter = some c) :
    shortEscape? letter = some c ∧ isBreak letter = false := by
  unfold escaped? at h
  split at h
  all_goals cases h
  all_goals decide

/-- The digits of a number, one by one. -/
theorem exists_hexValues {a b c d : Char} {n : Nat} (h : hex4? a b c d = some n) :
    ∃ w x y z, hexValue? a = some w ∧ hexValue? b = some x ∧ hexValue? c = some y ∧
      hexValue? d = some z ∧ ((w * 16 + x) * 16 + y) * 16 + z = n := by
  have hsame : hex4? a b c d = (hexValue? a).bind fun w => (hexValue? b).bind fun x =>
      (hexValue? c).bind fun y => (hexValue? d).bind fun z =>
        some (((w * 16 + x) * 16 + y) * 16 + z) := rfl
  rw [hsame] at h
  obtain ⟨w, hw, h⟩ := Option.bind_eq_some_iff.mp h
  obtain ⟨x, hx, h⟩ := Option.bind_eq_some_iff.mp h
  obtain ⟨y, hy, h⟩ := Option.bind_eq_some_iff.mp h
  obtain ⟨z, hz, h⟩ := Option.bind_eq_some_iff.mp h
  exact ⟨w, x, y, z, hw, hx, hy, hz, Option.some.inj h⟩

theorem hexValue?_lt {c : Char} {n : Nat} (h : hexValue? c = some n) : n < 16 := by
  unfold hexValue? at h
  split at h
  · next hrange =>
    have hle : c.toNat ≤ '9'.toNat := hrange.2
    have hnine : '9'.toNat = 57 := rfl
    have hn := Option.some.inj h
    omega
  · split at h
    · next hrange =>
      have hle : c.toNat ≤ 'F'.toNat := hrange.2
      have hlast : 'F'.toNat = 70 := rfl
      have hn := Option.some.inj h
      omega
    · split at h
      · next hrange =>
        have hle : c.toNat ≤ 'f'.toNat := hrange.2
        have hlast : 'f'.toNat = 102 := rfl
        have hn := Option.some.inj h
        omega
      · exact absurd h (by simp)

section Taking

variable {done rest : List Char} {p : Position}

theorem takeDouble_digit {c : Char} {k d : Nat} (hd : hexValue? c = some d) (value : Nat) :
    takeDouble (.digits (k + 2) value) .empty done (c :: rest) p =
      takeDouble (.digits (k + 1) (value * 16 + d)) .empty done rest (p.right 1) := by
  rw [Yaml.takeDouble.eq_def]
  dsimp only
  rw [hd]
  dsimp only
  rw [if_neg (by omega)]
  rfl

theorem takeDouble_lastDigit {c : Char} {d value : Nat} (hd : hexValue? c = some d)
    (hvalid : (value * 16 + d).isValidChar) :
    takeDouble (.digits 1 value) .empty done (c :: rest) p =
      takeDouble .text .empty (Char.ofNat (value * 16 + d) :: done) rest (p.right 1) := by
  rw [Yaml.takeDouble.eq_def]
  dsimp only
  rw [hd]
  dsimp only
  rw [if_pos (Nat.le_refl 1), if_pos hvalid]

/-- The number of a character is read as that character, unless it is half of a pair. -/
theorem takeDouble_code {a b c d : Char} {n : Nat} (hcode : hex4? a b c d = some n)
    (hhigh : isHighHalf n = false) (hlow : isLowHalf n = false) :
    takeDouble .escape .empty done ('u' :: a :: b :: c :: d :: rest) p =
      takeDouble .text .empty (Char.ofNat n :: done) rest (p.right 5) := by
  obtain ⟨w, x, y, z, hw, hx, hy, hz, rfl⟩ := exists_hexValues hcode
  have hvalue : (((0 * 16 + w) * 16 + x) * 16 + y) * 16 + z = ((w * 16 + x) * 16 + y) * 16 + z := by
    omega
  have hchar : ((((0 * 16 + w) * 16 + x) * 16 + y) * 16 + z).isValidChar := by
    have hlast := hexValue?_lt hz
    have hthird := hexValue?_lt hy
    have hsecond := hexValue?_lt hx
    have hfirst := hexValue?_lt hw
    simp only [isHighHalf, isLowHalf, Bool.and_eq_false_iff, decide_eq_false_iff_not] at hhigh hlow
    rw [hvalue, Nat.isValidChar]
    omega
  have hletter : takeDouble .escape .empty done ('u' :: a :: b :: c :: d :: rest) p =
      takeDouble (.digits 4 0) .empty done (a :: b :: c :: d :: rest) (p.right 1) := by
    rw [Yaml.takeDouble.eq_def]
    rfl
  have hmoved : ((((p.right 1).right 1).right 1).right 1).right 1 = p.right 5 := by
    simp [Position.right, Nat.add_assoc]
  rw [hletter, takeDouble_digit hw, takeDouble_digit hx, takeDouble_digit hy,
    takeDouble_lastDigit hz hchar, hvalue, hmoved]

/-- A character that stands for itself. A space waits for what comes behind. -/
theorem takeDouble_bare {c : Char} (hbreak : isBreak c = false) (hquote : c ≠ '"') (hslash : c ≠ '\\')
    (blanks : List Char) (hp : p.column ≠ 0) : ∃ blanks' done' : List Char,
      takeDouble .text (spaces blanks) done (c :: rest) p =
        takeDouble .text (spaces blanks') done' rest (p.right 1) ∧
      blanks' ++ done' = c :: (blanks ++ done) := by
  have hmark := not_atDocumentMark hp (c :: rest)
  cases hspacing : isSpacing c with
  | true =>
      refine ⟨c :: blanks, done, ?_, rfl⟩
      rw [Yaml.takeDouble.eq_def]
      dsimp only
      rw [if_neg (by simp [hbreak]), if_pos hspacing]
      rfl
  | false =>
      refine ⟨[], c :: (blanks ++ done), ?_, rfl⟩
      rw [Yaml.takeDouble.eq_def]
      dsimp only
      rw [if_neg (by simp [hbreak]), if_neg (by simp [hspacing]), if_neg (by simp [hmark]),
        if_neg hquote, if_neg hslash, close_spaces]
      rfl

theorem isBreak_bare {c : Char} (hlow : 0x20 ≤ c.toNat) (h : Flat c) : isBreak c = false := by
  have hfeed : c ≠ '\n' := by
    rintro rfl
    exact absurd hlow (by decide)
  simp [isBreak, hfeed, h.2.1, h.2.2]

/-- **A sign is read as its character.** -/
theorem takeDouble_sign {sign : Sign} (h : sign.isPair = false) (hflat : ∀ c ∈ sign.text, Flat c)
    (blanks done rest : List Char) (hp : p.column ≠ 0) : ∃ blanks' done' : List Char,
      takeDouble .text (spaces blanks) done (sign.text ++ rest) p =
        takeDouble .text (spaces blanks') done' rest (p.right sign.text.length) ∧
      blanks' ++ done' = sign.char :: (blanks ++ done) := by
  cases sign with
  | bare c hc =>
      have hbreak := isBreak_bare hc.1 (hflat c (List.mem_singleton.mpr rfl))
      exact takeDouble_bare hbreak hc.2.1 hc.2.2 blanks hp
  | short letter c hc =>
      obtain ⟨hshort, hbreak⟩ := shortEscape?_of_escaped? hc
      refine ⟨[], c :: (blanks ++ done), ?_, rfl⟩
      have hmoved : (p.right 1).right 1 = p.right 2 := by simp [Position.right, Nat.add_assoc]
      show takeDouble .text (spaces blanks) done ('\\' :: letter :: rest) p = _
      rw [takeDouble_backslash blanks done _ hp, Yaml.takeDouble.eq_def]
      dsimp only
      rw [if_neg (by simp [hbreak]), hshort]
      dsimp only
      rw [hmoved]
      rfl
  | code a b c d n hcode =>
      refine ⟨[], Char.ofNat n :: (blanks ++ done), ?_, rfl⟩
      have hmoved : (p.right 1).right 5 = p.right 6 := by simp [Position.right, Nat.add_assoc]
      show takeDouble .text (spaces blanks) done ('\\' :: 'u' :: a :: b :: c :: d :: rest) p = _
      rw [takeDouble_backslash blanks done _ hp, takeDouble_code hcode.1 hcode.2.1 hcode.2.2, hmoved]
      rfl
  | pair => exact absurd h (by simp [Sign.isPair])

theorem flat_signs_cons {sign : Sign} {signs : List Sign}
    (h : ∀ c ∈ signsText (sign :: signs), Flat c) :
    (∀ c ∈ sign.text, Flat c) ∧ ∀ c ∈ signsText signs, Flat c :=
  List.forall_mem_append.mp h

/-- The signs of a string are read as its characters. -/
theorem takeDouble_signs {signs : List Sign} (h : signs.any Sign.isPair = false)
    (hflat : ∀ c ∈ signsText signs, Flat c) (blanks : List Char) (hp : p.column ≠ 0) :
    takeDouble .text (spaces blanks) done (signsText signs ++ '"' :: rest) p =
      some ⟨(blanks ++ done).reverse ++ signs.map Sign.char, rest,
        p.right ((signsText signs).length + 1)⟩ := by
  induction signs generalizing blanks done p with
  | nil =>
      have hmark := not_atDocumentMark hp ('"' :: rest)
      show takeDouble .text (spaces blanks) done ('"' :: rest) p = _
      rw [Yaml.takeDouble.eq_def]
      dsimp only
      rw [if_neg (by decide), if_neg (by decide), if_neg (by simp [hmark]), if_pos rfl, close_spaces,
        List.map_nil, List.append_nil]
      rfl
  | cons sign signs ih =>
      have hsplit : signsText (sign :: signs) ++ '"' :: rest =
          sign.text ++ (signsText signs ++ '"' :: rest) := by simp [signsText]
      obtain ⟨hsingle, hmore⟩ := Bool.or_eq_false_iff.mp h
      obtain ⟨hfirst, hflat'⟩ := flat_signs_cons hflat
      obtain ⟨blanks', done', hsign, htext⟩ := takeDouble_sign hsingle hfirst blanks done
        (signsText signs ++ '"' :: rest) hp
      have hcolumn : (p.right sign.text.length).column ≠ 0 := by
        simp only [Position.right]
        omega
      have hmoved : (p.right sign.text.length).right ((signsText signs).length + 1) =
          p.right ((signsText (sign :: signs)).length + 1) := by
        simp [Position.right, signsText, Nat.add_assoc]
      rw [hsplit, hsign, ih hmore hflat' blanks' hcolumn, htext, hmoved]
      simp

end Taking

/-! ## Strings -/

theorem isAlphanum_of_hexValue? {c : Char} {n : Nat} (h : hexValue? c = some n) :
    c.isAlphanum = true := by
  unfold hexValue? at h
  split at h
  · next hrange =>
    have hdigit : c.isDigit = true := by
      rw [Char.isDigit, Bool.and_eq_true, decide_eq_true_eq, decide_eq_true_eq]
      exact hrange
    simp [Char.isAlphanum, hdigit]
  · split at h
    · next hrange =>
      have hupper : c.isUpper = true := by
        have hle : c.val ≤ 'F'.val := hrange.2
        have hge : 'A'.val ≤ c.val := hrange.1
        exact decide_eq_true ⟨hge, UInt32.le_trans hle (by decide)⟩
      show (c.isUpper || c.isLower || c.isDigit) = true
      rw [hupper]
      rfl
    · split at h
      · next hrange =>
        have hlower : c.isLower = true := by
          have hle : c.val ≤ 'f'.val := hrange.2
          have hge : 'a'.val ≤ c.val := hrange.1
          exact Bool.and_eq_true_iff.mpr
            ⟨decide_eq_true hge, decide_eq_true (UInt32.le_trans hle (by decide))⟩
        show (c.isUpper || c.isLower || c.isDigit) = true
        rw [hlower, Bool.or_true, Bool.true_or]
      · exact absurd h (by simp)

/-- No sign is written with a line end. -/
theorem kept_sign {sign : Sign} (hflat : ∀ c ∈ sign.text, Flat c) : ∀ c ∈ sign.text, Kept c := by
  have hslash : Kept '\\' := ⟨by decide, by decide, by decide⟩
  have hnone : ∀ c ∈ ([] : List Char), Kept c := fun c hc => absurd hc List.not_mem_nil
  -- the letter of the escape and the digits behind it
  have hcode : ∀ {a b c d : Char} {n : Nat}, hex4? a b c d = some n →
      ∀ e ∈ ['\\', 'u', a, b, c, d], Kept e := by
    intro a b c d n hcode
    obtain ⟨w, x, y, z, hw, hx, hy, hz, -⟩ := exists_hexValues hcode
    have hword : ∀ {c : Char}, c.isAlphanum = true → Kept c := fun h => (InWord.kept (.inl h))
    have hdigit : ∀ {c : Char} {n : Nat}, hexValue? c = some n → Kept c := fun h =>
      hword (isAlphanum_of_hexValue? h)
    simp only [List.forall_mem_cons]
    exact ⟨hslash, hword rfl, hdigit hw, hdigit hx, hdigit hy, hdigit hz, hnone⟩
  cases sign with
  | bare c hc =>
      intro d hd
      have hnext := (hflat d hd).1
      obtain rfl := List.mem_singleton.mp hd
      have hfeed : d ≠ '\n' := by
        rintro rfl
        exact absurd hc.1 (by decide)
      have hreturn : d ≠ '\r' := by
        rintro rfl
        exact absurd hc.1 (by decide)
      exact ⟨hfeed, hreturn, hnext⟩
  | short letter c hc =>
      have hletter : Kept letter := by
        unfold escaped? at hc
        split at hc
        all_goals cases hc
        all_goals exact ⟨by decide, by decide, by decide⟩
      simp only [Sign.text, List.forall_mem_cons]
      exact ⟨hslash, hletter, hnone⟩
  | code a b c d n hn => exact hcode hn.1
  | pair a b c d e f g k high low hhigh hlow =>
      exact List.forall_mem_append.mpr ⟨hcode hhigh.1, hcode hlow.1⟩

theorem kept_signs {signs : List Sign} (hflat : ∀ c ∈ signsText signs, Flat c) :
    ∀ c ∈ signsText signs, Kept c := by
  intro c hc
  obtain ⟨sign, hsign, hmem⟩ := List.mem_flatMap.mp hc
  exact kept_sign (fun d hd => hflat d (List.mem_flatMap.mpr ⟨sign, hsign, hd⟩)) c hmem

/-- **A string is read as a text between quotes.** -/
theorem quotedAs_signs {signs : List Sign} (h : signs.any Sign.isPair = false)
    (hflat : ∀ c ∈ signsText signs, Flat c) : QuotedAs (signsText signs) (signs.map Sign.char) where
  kept := kept_signs hflat
  take _ _ hp := takeDouble_signs h hflat [] hp

/-- **Half of a number is read as no character.** -/
theorem takeDouble_half {a b c d : Char} {n : Nat} (hcode : hex4? a b c d = some n)
    (hhalf : isHighHalf n = true) (done rest : List Char) (p : Position) :
    takeDouble .escape .empty done ('u' :: a :: b :: c :: d :: rest) p = none := by
  obtain ⟨w, x, y, z, hw, hx, hy, hz, rfl⟩ := exists_hexValues hcode
  have hvalue : (((0 * 16 + w) * 16 + x) * 16 + y) * 16 + z = ((w * 16 + x) * 16 + y) * 16 + z := by
    omega
  have hchar : ¬ ((((0 * 16 + w) * 16 + x) * 16 + y) * 16 + z).isValidChar := by
    simp only [isHighHalf, Bool.and_eq_true, decide_eq_true_eq] at hhalf
    rw [hvalue, Nat.isValidChar]
    omega
  have hletter : takeDouble .escape .empty done ('u' :: a :: b :: c :: d :: rest) p =
      takeDouble (.digits 4 0) .empty done (a :: b :: c :: d :: rest) (p.right 1) := by
    rw [Yaml.takeDouble.eq_def]
    rfl
  rw [hletter, takeDouble_digit hw, takeDouble_digit hx, takeDouble_digit hy, Yaml.takeDouble.eq_def]
  dsimp only
  rw [hz]
  dsimp only
  rw [if_pos (Nat.le_refl 1), if_neg hchar]

/-- A string with a pair is not read. -/
theorem takeDouble_pair {signs : List Sign} (h : signs.any Sign.isPair = true)
    (hflat : ∀ c ∈ signsText signs, Flat c) (blanks done rest : List Char) {p : Position}
    (hp : p.column ≠ 0) :
    takeDouble .text (spaces blanks) done (signsText signs ++ rest) p = none := by
  induction signs generalizing blanks done p with
  | nil => exact absurd h (by simp)
  | cons sign signs ih =>
      obtain ⟨hfirst, hflat'⟩ := flat_signs_cons hflat
      have hsplit : signsText (sign :: signs) ++ rest = sign.text ++ (signsText signs ++ rest) := by
        simp [signsText]
      rw [hsplit]
      cases hsign : sign.isPair with
      | false =>
          -- the pair comes later
          have hmore : signs.any Sign.isPair = true := by simpa [hsign] using h
          obtain ⟨blanks', done', hread, -⟩ :=
            takeDouble_sign hsign hfirst blanks done (signsText signs ++ rest) hp
          have hcolumn : (p.right sign.text.length).column ≠ 0 := by
            simp only [Position.right]
            omega
          rw [hread]
          exact ih hmore hflat' blanks' done' hcolumn
      | true =>
          cases sign with
          | pair a b c d e f g k high low hhigh hlow =>
              have htext : (Sign.pair a b c d e f g k high low hhigh hlow).text ++
                  (signsText signs ++ rest) = '\\' :: 'u' :: a :: b :: c :: d ::
                    ('\\' :: 'u' :: e :: f :: g :: k :: (signsText signs ++ rest)) := rfl
              rw [htext, takeDouble_backslash blanks done _ hp, takeDouble_half hhigh.1 hhigh.2]
          | bare | short | code => exact Bool.noConfusion hsign

/-- **A string with a pair inside brackets.** -/
theorem stuck_signs {signs : List Sign} (h : signs.any Sign.isPair = true)
    (hflat : ∀ c ∈ signsText signs, Flat c) {n : Nat} {s : Lexer} {cs : List Char}
    (hs : s.Facing (n + 1) ('"' :: (signsText signs ++ cs))) : s.Stuck := by
  refine hs.stuck_quoted fun p hp => ?_
  rw [Yaml.normalized_append (kept_signs hflat)]
  exact takeDouble_pair h hflat [] [] _ hp

end BomAssembly.Json
