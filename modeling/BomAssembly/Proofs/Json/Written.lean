import BomAssembly.Json.Reader
import BomAssembly.Text.Blank

/-!
# JSON texts as they are written

A JSON text has more to it than the value it is read as: white space between its parts, escapes in its
strings, and the digits of its numbers. A `Written` value holds all of that, and nothing that a reader
would refuse, so each has a text and a value. Every text that is read is the text of a written value,
with white space around it, and its value is the one that was read (`exists_written`).
-/

namespace BomAssembly.Json

/-- White space between the parts of a text. -/
structure Space where
  chars : List Char
  blank : ∀ c ∈ chars, isSpace c = true

/-- No white space. -/
def Space.none : Space := ⟨[], by simp⟩

/-- The white space of JSON is blank. -/
theorem isBlank_of_isSpace {c : Char} (h : isSpace c = true) : Text.isBlank c = true := by
  simp only [isSpace, Bool.or_eq_true, beq_iff_eq] at h
  rcases h with ((rfl | rfl) | rfl) | rfl
  all_goals decide

/-! ## Strings -/

/-- A character of a string, as it is written. -/
inductive Sign where
  /-- The character itself. -/
  | bare (c : Char) (h : 0x20 ≤ c.toNat ∧ c ≠ '"' ∧ c ≠ '\\')
  /-- An escape of one letter. -/
  | short (letter c : Char) (h : escaped? letter = some c)
  /-- The number of the character, which is no half of a pair. -/
  | code (a b c d : Char) (n : Nat)
    (h : hex4? a b c d = some n ∧ isHighHalf n = false ∧ isLowHalf n = false)
  /-- The two halves of the number of the character. -/
  | pair (a b c d e f g h : Char) (high low : Nat)
    (hhigh : hex4? a b c d = some high ∧ isHighHalf high = true)
    (hlow : hex4? e f g h = some low ∧ isLowHalf low = true)

namespace Sign

/-- What is written. -/
def text : Sign → List Char
  | bare c _ => [c]
  | short letter _ _ => ['\\', letter]
  | code a b c d _ _ => ['\\', 'u', a, b, c, d]
  | pair a b c d e f g h .. => ['\\', 'u', a, b, c, d, '\\', 'u', e, f, g, h]

/-- The character that it means. -/
def char : Sign → Char
  | bare c _ => c
  | short _ c _ => c
  | code _ _ _ _ n _ => Char.ofNat n
  | pair _ _ _ _ _ _ _ _ high low .. => pairChar high low

end Sign

/-- The text between the quotes. -/
def signsText (signs : List Sign) : List Char := signs.flatMap Sign.text

/-- The string that is meant. -/
def signsString (signs : List Sign) : String := String.ofList (signs.map Sign.char)

/-- A text between quotes, as it is read. -/
def SignedAs (cs s rest : List Char) : Prop :=
  ∃ signs : List Sign, cs = signsText signs ++ '"' :: rest ∧ signs.map Sign.char = s

/-- One more sign in front of a string. -/
theorem signedAs_cons {ds s rest : List Char} (sign : Sign)
    (h : (stringBody ds).map (fun t => (sign.char :: t.1, t.2)) = some (s, rest))
    (ih : ∀ {s rest : List Char}, stringBody ds = some (s, rest) → SignedAs ds s rest) :
    SignedAs (sign.text ++ ds) s rest := by
  obtain ⟨⟨more, r⟩, hmore, heq⟩ := Option.map_eq_some_iff.mp h
  obtain ⟨rfl, rfl⟩ := Prod.mk.inj heq
  obtain ⟨signs, rfl, rfl⟩ := ih hmore
  exact ⟨sign :: signs, by simp [signsText], rfl⟩

/-- **What is read as a string** is written sign by sign. -/
theorem signedAs_of_stringBody {cs s rest : List Char} (h : stringBody cs = some (s, rest)) :
    SignedAs cs s rest := by
  fun_induction stringBody cs generalizing s rest with
  | case2 =>
      obtain ⟨rfl, rfl⟩ := Prod.mk.inj (Option.some.inj h)
      exact ⟨[], rfl, rfl⟩
  | case5 a b c d e f g k _ high hhigh hhalf low hlow hhalf' ih =>
      exact signedAs_cons (.pair a b c d e f g k high low ⟨hhigh, hhalf⟩ ⟨hlow, hhalf'⟩) h ih
  | case8 a b c d _ _ _ _ _ n hn hhigh hlow ih =>
      exact signedAs_cons (.code a b c d n ⟨hn, by simpa using hhigh, by simpa using hlow⟩) h ih
  | case11 a b c d _ _ n hn hhalf ih =>
      obtain ⟨hhigh, hlow⟩ := Bool.or_eq_false_iff.mp (Bool.eq_false_iff.mpr hhalf)
      exact signedAs_cons (.code a b c d n ⟨hn, hhigh, hlow⟩) h ih
  | case13 letter _ _ _ c hc ih => exact signedAs_cons (.short letter c hc) h ih
  | case15 c _ hquote _ _ _ hbare ih =>
      obtain ⟨hlow, hslash⟩ := Bool.or_eq_false_iff.mp (Bool.eq_false_iff.mpr hbare)
      exact signedAs_cons (.bare c ⟨by simpa using hlow, hquote, by simpa using hslash⟩) h ih
  | _ => exact absurd h (by simp)

/-! ## Numbers -/

/-- Digits of which there is at least one. -/
structure Digits where
  chars : List Char
  nonempty : chars ≠ []
  digit : ∀ c ∈ chars, c.isDigit = true

/-- The exponent of a number, as it is written. -/
structure Exponent where
  mark : Char
  letter : mark = 'e' ∨ mark = 'E'
  /-- Whether a plus or a minus is written. -/
  sign : Option Bool
  digits : Digits

namespace Exponent

/-- The sign that is written. -/
def signText : Option Bool → List Char
  | some true => ['+']
  | some false => ['-']
  | none => []

/-- What is written. -/
def text (e : Exponent) : List Char := e.mark :: (signText e.sign ++ e.digits.chars)

end Exponent

/-- A number literal, part by part. -/
structure Literal where
  negative : Bool
  whole : Digits
  unpadded : ∀ d more, whole.chars ≠ '0' :: d :: more
  fraction : Option Digits
  exponent : Option Exponent

namespace Literal

/-- The fraction that is written. -/
def fractionText (l : Literal) : List Char :=
  match l.fraction with
  | some ds => '.' :: ds.chars
  | none => []

/-- The exponent that is written. -/
def exponentText (l : Literal) : List Char :=
  match l.exponent with
  | some e => e.text
  | none => []

/-- What is written. -/
def text (l : Literal) : List Char :=
  (if l.negative then ['-'] else []) ++ (l.whole.chars ++ (l.fractionText ++ l.exponentText))

/-- The parts that make the value. -/
def parts (l : Literal) : NumberText where
  negative := l.negative
  whole := l.whole.chars
  fraction := l.fraction.map Digits.chars
  exponent := l.exponent.map fun e => (e.sign.getD true, e.digits.chars)

end Literal

theorem exists_digits {cs ds rest : List Char} (h : someDigits cs = some (ds, rest)) :
    ∃ digits : Digits, digits.chars = ds ∧ cs = ds ++ rest := by
  have hdigit : ∀ c ∈ cs.takeWhile Char.isDigit, c.isDigit = true :=
    List.all_eq_true.mp List.all_takeWhile
  have hsplit : cs = cs.takeWhile Char.isDigit ++ cs.dropWhile Char.isDigit :=
    List.takeWhile_append_dropWhile.symm
  unfold someDigits takeDigits at h
  cases hds : cs.takeWhile Char.isDigit with
  | nil =>
      rw [hds] at h
      exact absurd h (by simp)
  | cons d more =>
      rw [hds] at h hdigit hsplit
      obtain ⟨rfl, rfl⟩ := Prod.mk.inj (Option.some.inj h)
      exact ⟨⟨d :: more, List.cons_ne_nil d more, hdigit⟩, rfl, hsplit⟩

theorem exists_fraction {cs rest : List Char} {fraction : Option (List Char)}
    (h : takeFraction cs = some (fraction, rest)) : ∃ digits : Option Digits,
      digits.map Digits.chars = fraction ∧
      cs = (match digits with | some ds => '.' :: ds.chars | none => []) ++ rest := by
  unfold takeFraction at h
  split at h
  · obtain ⟨⟨ds, r⟩, hds, heq⟩ := Option.map_eq_some_iff.mp h
    obtain ⟨rfl, rfl⟩ := Prod.mk.inj heq
    obtain ⟨digits, rfl, rfl⟩ := exists_digits hds
    exact ⟨some digits, rfl, rfl⟩
  · obtain ⟨rfl, rfl⟩ := Prod.mk.inj (Option.some.inj h)
    exact ⟨none, rfl, rfl⟩

theorem exists_sign {cs rest : List Char} {up : Bool} (h : takeSign cs = (up, rest)) :
    ∃ sign : Option Bool, sign.getD true = up ∧ cs = Exponent.signText sign ++ rest := by
  unfold takeSign at h
  split at h
  all_goals obtain ⟨rfl, rfl⟩ := Prod.mk.inj h
  · exact ⟨some true, rfl, rfl⟩
  · exact ⟨some false, rfl, rfl⟩
  · exact ⟨none, rfl, rfl⟩

theorem exists_exponent {cs rest : List Char} {exponent : Option (Bool × List Char)}
    (h : takeExponent cs = some (exponent, rest)) : ∃ e : Option Exponent,
      (e.map fun e => (e.sign.getD true, e.digits.chars)) = exponent ∧
      cs = (match e with | some e => e.text | none => []) ++ rest := by
  unfold takeExponent at h
  split at h
  · next c more =>
    split at h
    · next hmark =>
      rcases hsign : takeSign more with ⟨up, behind⟩
      obtain ⟨sign, rfl, rfl⟩ := exists_sign hsign
      rw [hsign] at h
      obtain ⟨⟨ds, r⟩, hds, heq⟩ := Option.map_eq_some_iff.mp h
      obtain ⟨rfl, rfl⟩ := Prod.mk.inj heq
      obtain ⟨digits, rfl, rfl⟩ := exists_digits hds
      exact ⟨some ⟨c, hmark, sign, digits⟩, rfl, by simp [Exponent.text]⟩
    · obtain ⟨rfl, rfl⟩ := Prod.mk.inj (Option.some.inj h)
      exact ⟨none, rfl, rfl⟩
  · obtain ⟨rfl, rfl⟩ := Prod.mk.inj (Option.some.inj h)
    exact ⟨none, rfl, rfl⟩

theorem exists_whole {cs ds rest : List Char} (h : takeWhole cs = some (ds, rest)) :
    ∃ digits : Digits, digits.chars = ds ∧ cs = ds ++ rest ∧ ∀ d more, ds ≠ '0' :: d :: more := by
  unfold takeWhole at h
  split at h
  · exact absurd h (by simp)
  · next hunpadded =>
    obtain ⟨digits, hdigits, hcs⟩ := exists_digits h
    exact ⟨digits, hdigits, hcs, fun d more heq => hunpadded d more rest (by rw [h, heq])⟩

/-- **What is read as a number** is written part by part. -/
theorem exists_literal {cs rest : List Char} {t : NumberText} (h : takeNumber cs = some (t, rest)) :
    ∃ l : Literal, cs = l.text ++ rest ∧ l.parts = t := by
  have hbody : ∀ (negative : Bool) (body : List Char),
      ((takeWhole body).bind fun w => (takeFraction w.2).bind fun f => (takeExponent f.2).bind fun e =>
        some ((⟨negative, w.1, f.1, e.1⟩ : NumberText), e.2)) = some (t, rest) →
      ∃ l : Literal, (if negative then ['-'] else []) ++ body = l.text ++ rest ∧ l.parts = t := by
    intro negative body hread
    obtain ⟨⟨whole, behindWhole⟩, hwhole, hread⟩ := Option.bind_eq_some_iff.mp hread
    obtain ⟨⟨fraction, behindFraction⟩, hfraction, hread⟩ := Option.bind_eq_some_iff.mp hread
    obtain ⟨⟨exponent, behindExponent⟩, hexponent, hread⟩ := Option.bind_eq_some_iff.mp hread
    obtain ⟨rfl, rfl⟩ := Prod.mk.inj (Option.some.inj hread)
    obtain ⟨digits, rfl, rfl, hunpadded⟩ := exists_whole hwhole
    obtain ⟨fractionDigits, rfl, hsecond⟩ := exists_fraction hfraction
    obtain ⟨e, rfl, hthird⟩ := exists_exponent hexponent
    dsimp only at hsecond hthird
    refine ⟨⟨negative, digits, hunpadded, fractionDigits, e⟩, ?_, rfl⟩
    rw [hsecond, hthird]
    simp [Literal.text, Literal.fractionText, Literal.exponentText]
  unfold takeNumber at h
  split at h
  next negative body hcs =>
  split at hcs
  · obtain ⟨rfl, rfl⟩ := Prod.mk.inj hcs
    exact hbody true _ h
  · obtain ⟨rfl, rfl⟩ := Prod.mk.inj hcs
    exact hbody false _ h

/-! ## Words -/

/-- A value that is one word. -/
inductive Word where
  | null
  | bool (b : Bool)
  | number (l : Literal) (value : JsonNumber) (h : l.parts.value? = some value)

namespace Word

/-- What is written. -/
def text : Word → List Char
  | null => ['n', 'u', 'l', 'l']
  | bool true => ['t', 'r', 'u', 'e']
  | bool false => ['f', 'a', 'l', 's', 'e']
  | number l _ _ => l.text

/-- The value that it means. -/
def json : Word → Json
  | null => .null
  | bool b => .bool b
  | number _ value _ => .num value

end Word

/-! ## Values -/

/-- The name of a member, with the colon and the white space around both. -/
structure Name where
  before : Space
  signs : List Sign
  between : Space
  behind : Space

namespace Name

/-- What is written. -/
def text (n : Name) : List Char :=
  n.before.chars ++ '"' :: (signsText n.signs ++ '"' :: (n.between.chars ++ ':' :: n.behind.chars))

/-- The name that is meant. -/
def string (n : Name) : String := signsString n.signs

end Name

mutual

/-- A value, as it is written. The white space of a container stands behind its opening bracket. -/
inductive Written where
  | string (signs : List Sign)
  | word (w : Word)
  | array (space : Space) (items : WrittenItems)
  | object (space : Space) (members : WrittenMembers)

/-- The items of an array, each with the white space around it. -/
inductive WrittenItems where
  | nil
  | cons (before : Space) (item : Written) (behind : Space) (more : WrittenItems)

/-- The members of an object, each with the white space behind it. -/
inductive WrittenMembers where
  | nil
  | cons (name : Name) (value : Written) (behind : Space) (more : WrittenMembers)

end

/-- The comma in front of all but the first of several parts. -/
def comma (first : Bool) : List Char := if first then [] else [',']

mutual

/-- What is written. -/
def Written.text : Written → List Char
  | .string signs => '"' :: (signsText signs ++ ['"'])
  | .word w => w.text
  | .array space items => '[' :: (space.chars ++ (items.text true ++ [']']))
  | .object space members => '\x7b' :: (space.chars ++ (members.text true ++ ['\x7d']))

/-- What is written of the items. -/
def WrittenItems.text (first : Bool) : WrittenItems → List Char
  | .nil => []
  | .cons before item behind more =>
    comma first ++ (before.chars ++ (item.text ++ (behind.chars ++ more.text false)))

/-- What is written of the members. -/
def WrittenMembers.text (first : Bool) : WrittenMembers → List Char
  | .nil => []
  | .cons name value behind more =>
    comma first ++ (name.text ++ (value.text ++ (behind.chars ++ more.text false)))

end

mutual

/-- The value that is meant. -/
def Written.json : Written → Json
  | .string signs => .str (signsString signs)
  | .word w => w.json
  | .array _ items => .arr items.json
  | .object _ members => .obj members.json

/-- The values of the items. -/
def WrittenItems.json : WrittenItems → List Json
  | .nil => []
  | .cons _ item _ more => item.json :: more.json

/-- The names and values of the members, as often as they are written. -/
def WrittenMembers.json : WrittenMembers → List (String × Json)
  | .nil => []
  | .cons name value _ more => (name.string, value.json) :: more.json

end

/-- A JSON text: a value with white space around it. -/
structure JsonText where
  before : Space
  value : Written
  behind : Space

/-- What is written. -/
def JsonText.text (t : JsonText) : List Char :=
  t.before.chars ++ (t.value.text ++ t.behind.chars)

/-! ## What is read was written -/

theorem exists_space (cs : List Char) : ∃ space : Space, cs = space.chars ++ skipSpace cs :=
  ⟨⟨cs.takeWhile isSpace, List.all_eq_true.mp List.all_takeWhile⟩,
    List.takeWhile_append_dropWhile.symm⟩

theorem eq_append_of_dropWord {word cs rest : List Char} (h : dropWord word cs = some rest) :
    cs = word ++ rest := by
  unfold dropWord at h
  split at h
  · next hword =>
    rw [← Option.some.inj h]
    exact (List.prefix_iff_eq_append.mp (List.isPrefixOf_iff_prefix.mp hword)).symm
  · exact absurd h (by simp)

/-- What the readers of values, of items and of members promise with so much fuel. -/
structure Spelled (n : Nat) : Prop where
  value : ∀ {d : Nat} {cs rest : List Char} {v : Json}, takeValue n d .any cs = some (v, rest) →
    ∃ (before : Space) (w : Written), cs = before.chars ++ (w.text ++ rest) ∧ w.json = v
  items : ∀ {d : Nat} {cs rest : List Char} {vs : List Json},
    takeItems n d .any cs = some (vs, rest) → ∃ items : WrittenItems, items.json = vs ∧
      ∀ first, comma first ++ cs = items.text first ++ ']' :: rest
  members : ∀ {d : Nat} {cs rest : List Char} {fs : List (String × Json)},
    takeMembers n d .any cs = some (fs, rest) → ∃ members : WrittenMembers, members.json = fs ∧
      ∀ first, comma first ++ cs = members.text first ++ '\x7d' :: rest

theorem spelled_zero : Spelled 0 where
  value h := by simp [takeValue] at h
  items h := by simp [takeItems] at h
  members h := by simp [takeMembers] at h

section Step

variable {n : Nat} (hn : Spelled n) {d : Nat} {cs rest : List Char}

include hn

/-- What is read behind an opening bracket. -/
theorem Spelled.array {behind : List Char} {v : Json}
    (h : (match skipSpace behind with
      | ']' :: more => some (.arr [], more)
      | more => (takeItems n d .any more).map fun (vs, r) => (.arr vs, r)) = some (v, rest)) :
    ∃ w : Written, '[' :: behind = w.text ++ rest ∧ w.json = v := by
  obtain ⟨space, hspace⟩ := exists_space behind
  split at h
  · next more hclose =>
    obtain ⟨rfl, rfl⟩ := Prod.mk.inj (Option.some.inj h)
    refine ⟨.array space .nil, ?_, rfl⟩
    rw [hspace, hclose]
    simp [Written.text, WrittenItems.text]
  · obtain ⟨⟨vs, r⟩, hvs, heq⟩ := Option.map_eq_some_iff.mp h
    obtain ⟨rfl, rfl⟩ := Prod.mk.inj heq
    obtain ⟨items, rfl, hitems⟩ := hn.items hvs
    have htext := hitems true
    rw [comma, if_pos rfl, List.nil_append] at htext
    refine ⟨.array space items, ?_, rfl⟩
    rw [hspace, htext]
    simp [Written.text]

/-- What is read behind an opening brace. -/
theorem Spelled.object {behind : List Char} {v : Json}
    (h : (match skipSpace behind with
      | '\x7d' :: more => some (.obj [], more)
      | more => (takeMembers n d .any more).map fun (fs, r) => (.obj fs, r)) = some (v, rest)) :
    ∃ w : Written, '\x7b' :: behind = w.text ++ rest ∧ w.json = v := by
  obtain ⟨space, hspace⟩ := exists_space behind
  split at h
  · next more hclose =>
    obtain ⟨rfl, rfl⟩ := Prod.mk.inj (Option.some.inj h)
    refine ⟨.object space .nil, ?_, rfl⟩
    rw [hspace, hclose]
    simp [Written.text, WrittenMembers.text]
  · obtain ⟨⟨fs, r⟩, hfs, heq⟩ := Option.map_eq_some_iff.mp h
    obtain ⟨rfl, rfl⟩ := Prod.mk.inj heq
    obtain ⟨members, rfl, hmembers⟩ := hn.members hfs
    have htext := hmembers true
    rw [comma, if_pos rfl, List.nil_append] at htext
    refine ⟨.object space members, ?_, rfl⟩
    rw [hspace, htext]
    simp [Written.text]

theorem Spelled.value_succ {v : Json} (h : takeValue (n + 1) d .any cs = some (v, rest)) :
    ∃ (before : Space) (w : Written), cs = before.chars ++ (w.text ++ rest) ∧ w.json = v := by
  obtain ⟨before, hbefore⟩ := exists_space cs
  -- what stands behind the white space is the value
  have hvalue : (∃ w : Written, skipSpace cs = w.text ++ rest ∧ w.json = v) →
      ∃ (before : Space) (w : Written), cs = before.chars ++ (w.text ++ rest) ∧ w.json = v := by
    rintro ⟨w, hw, hv⟩
    exact ⟨before, w, by rw [← hw, ← hbefore], hv⟩
  refine hvalue ?_
  have hword : ∀ (w : Word) (c : Char) (letters behind : List Char), w.text = c :: letters →
      (dropWord letters behind).map (fun r => (w.json, r)) = some (v, rest) →
      ∃ w : Written, c :: behind = w.text ++ rest ∧ w.json = v := by
    intro w c letters behind htext hread
    obtain ⟨r, hr, heq⟩ := Option.map_eq_some_iff.mp hread
    obtain ⟨rfl, rfl⟩ := Prod.mk.inj heq
    refine ⟨.word w, ?_, rfl⟩
    rw [Written.text, htext, eq_append_of_dropWord hr, List.cons_append]
  rw [takeValue] at h
  split at h
  · next behind hskip =>
    obtain ⟨⟨s, r⟩, hs, heq⟩ := Option.map_eq_some_iff.mp h
    obtain ⟨rfl, rfl⟩ := Prod.mk.inj heq
    obtain ⟨signs, rfl, rfl⟩ := signedAs_of_stringBody hs
    refine ⟨.string signs, ?_, rfl⟩
    rw [hskip, Written.text]
    simp
  · next behind hskip =>
    rw [hskip]
    split at h
    · exact absurd h (by simp)
    · exact hn.array h
  · next behind hskip =>
    rw [hskip]
    split at h
    · exact absurd h (by simp)
    · exact hn.object h
  · next hskip =>
    rw [hskip]
    exact hword .null 'n' _ _ rfl h
  · next hskip =>
    rw [hskip]
    exact hword (.bool true) 't' _ _ rfl h
  · next hskip =>
    rw [hskip]
    exact hword (.bool false) 'f' _ _ rfl h
  · split at h
    · exact absurd h (by simp)
    · next t r hnumber =>
      obtain ⟨value, hv, heq⟩ := Option.map_eq_some_iff.mp h
      obtain ⟨rfl, rfl⟩ := Prod.mk.inj heq
      obtain ⟨l, hl, rfl⟩ := exists_literal hnumber
      exact ⟨.word (.number l value hv), hl, rfl⟩

theorem Spelled.items_succ {vs : List Json} (h : takeItems (n + 1) d .any cs = some (vs, rest)) :
    ∃ items : WrittenItems, items.json = vs ∧
      ∀ first, comma first ++ cs = items.text first ++ ']' :: rest := by
  rw [takeItems] at h
  split at h
  · exact absurd h (by simp)
  · next v behindItem hv =>
    obtain ⟨before, w, rfl, rfl⟩ := hn.value hv
    obtain ⟨behind, hbehind⟩ := exists_space behindItem
    split at h
    · next hclose =>
      obtain ⟨rfl, rfl⟩ := Prod.mk.inj (Option.some.inj h)
      refine ⟨.cons before w behind .nil, rfl, fun first => ?_⟩
      rw [hbehind, hclose]
      simp [WrittenItems.text]
    · next more hcomma =>
      obtain ⟨⟨vs', behindAll⟩, hvs, heq⟩ := Option.map_eq_some_iff.mp h
      obtain ⟨rfl, rfl⟩ := Prod.mk.inj heq
      obtain ⟨items, rfl, hitems⟩ := hn.items hvs
      refine ⟨.cons before w behind items, rfl, fun first => ?_⟩
      have htext : ',' :: more = items.text false ++ ']' :: behindAll := hitems false
      rw [hbehind, hcomma, htext]
      simp [WrittenItems.text]
    · exact absurd h (by simp)

theorem Spelled.members_succ {fs : List (String × Json)}
    (h : takeMembers (n + 1) d .any cs = some (fs, rest)) :
    ∃ members : WrittenMembers, members.json = fs ∧
      ∀ first, comma first ++ cs = members.text first ++ '\x7d' :: rest := by
  obtain ⟨before, hbefore⟩ := exists_space cs
  rw [takeMembers] at h
  split at h
  · next inside hquote =>
    split at h
    · exact absurd h (by simp)
    · next name behindName hname =>
      obtain ⟨signs, rfl, rfl⟩ := signedAs_of_stringBody hname
      obtain ⟨between, hbetween⟩ := exists_space behindName
      dsimp only [Shape.field?] at h
      split at h
      · next hcolon =>
        split at h
        · exact absurd h (by simp)
        · next field behindField hfield =>
          obtain ⟨⟨v, behindValue⟩, hv, heq⟩ := Option.map_eq_some_iff.mp hfield
          obtain ⟨rfl, rfl⟩ := Prod.mk.inj heq
          obtain ⟨behind, w, rfl, rfl⟩ := hn.value hv
          obtain ⟨last, hlast⟩ := exists_space behindValue
          split at h
          · next hclose =>
            obtain ⟨rfl, rfl⟩ := Prod.mk.inj (Option.some.inj h)
            refine ⟨.cons ⟨before, signs, between, behind⟩ w last .nil, rfl, fun first => ?_⟩
            rw [hbefore, hquote, hbetween, hcolon, hlast, hclose]
            simp [WrittenMembers.text, Name.text]
          · next more hcomma =>
            obtain ⟨⟨fs', behindAll⟩, hfs, heq⟩ := Option.map_eq_some_iff.mp h
            obtain ⟨rfl, rfl⟩ := Prod.mk.inj heq
            obtain ⟨members, rfl, hmembers⟩ := hn.members hfs
            refine ⟨.cons ⟨before, signs, between, behind⟩ w last members, rfl, fun first => ?_⟩
            have htext : ',' :: more = members.text false ++ '\x7d' :: behindAll := hmembers false
            rw [hbefore, hquote, hbetween, hcolon, hlast, hcomma, htext]
            simp [WrittenMembers.text, Name.text]
          · exact absurd h (by simp)
      · exact absurd h (by simp)
  · exact absurd h (by simp)

end Step

theorem spelled_all (n : Nat) : Spelled n := by
  induction n with
  | zero => exact spelled_zero
  | succ n ih => exact ⟨ih.value_succ, ih.items_succ, ih.members_succ⟩

/-- **What was read was written.** -/
theorem exists_written {s : String} {v : Json} (h : readWritten .any s = some v) :
    ∃ t : JsonText, t.text = s.toList ∧ t.value.json = v := by
  rw [readWritten] at h
  split at h
  · next rest hv =>
    split at h
    · next hrest =>
      obtain rfl := Option.some.inj h
      obtain ⟨before, w, hcs, rfl⟩ := (spelled_all _).value hv
      obtain ⟨behind, hbehind⟩ := exists_space rest
      rw [List.isEmpty_iff.mp hrest, List.append_nil] at hbehind
      exact ⟨⟨before, w, behind⟩, by rw [hcs, hbehind, JsonText.text], rfl⟩
    · exact absurd h (by simp)
  · exact absurd h (by simp)

end BomAssembly.Json
