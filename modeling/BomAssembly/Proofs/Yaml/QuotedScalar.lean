import BomAssembly.Proofs.Text.PercentEncoding
import BomAssembly.Proofs.Yaml.PlainScalar
import Mathlib.Tactic.Ring

/-!
# Quoted scalars that were written

Between single quotes line breaks are written as they are, with indentation behind them. Reading folds
breaks and drops the blanks around them; what is written there has no line feeds, and no spaces beside
its breaks, so that nothing is folded or dropped (`takeSingle_singleText`). Between double quotes all
breaks are escapes, and an escape is read as the character that it was made from
(`takeDouble_flatMap`).
-/

namespace BomAssembly.Yaml

theorem hasPair_cons {first second : Char → Bool} {a : Char} (ha : first a = false)
    (cs : List Char) : hasPair first second (a :: cs) = hasPair first second cs := by
  cases cs with
  | nil => rfl
  | cons b cs => rw [hasPair, ha, Bool.false_and, Bool.false_or]

theorem not_second_of_hasPair {first second : Char → Bool} {a b : Char} {cs : List Char}
    (h : hasPair first second (a :: b :: cs) = false) (ha : first a = true) : second b = false := by
  rw [hasPair, ha, Bool.true_and, Bool.or_eq_false_iff] at h
  exact h.1

theorem hasPair_tail {first second : Char → Bool} {a b : Char} {cs : List Char}
    (h : hasPair first second (a :: b :: cs) = false) : hasPair first second (b :: cs) = false := by
  rw [hasPair, Bool.or_eq_false_iff] at h
  exact h.2

/-! ## Single quotes -/

/-- Breaks that were read since the last word, last one first. -/
def breaksGap (breaks : List Char) : Gap := { breaks, broken := true }

theorem close_spaces (blanks done : List Char) : (spaces blanks).close done = blanks ++ done := by
  simp [Gap.close, Gap.text, spaces]

theorem close_breaksGap {breaks : List Char} (h : '\n' ∉ breaks) (done : List Char) :
    (breaksGap breaks).close done = breaks ++ done := by
  have hkept : Gap.foldBreaks breaks.reverse = breaks.reverse := by
    unfold Gap.foldBreaks
    split
    · next heq => exact absurd (List.mem_reverse.mp (heq ▸ List.mem_cons_self)) h
    · next heq => exact absurd (List.mem_reverse.mp (heq ▸ List.mem_cons_self)) h
    · rfl
  have htext : (breaksGap breaks).text = Gap.foldBreaks breaks.reverse := rfl
  rw [Gap.close, htext, hkept, List.reverse_reverse]

section Steps

variable {c : Char} {g : Gap} {done cs : List Char} {p : Position}

theorem takeSingle_break (h : isBreak c = true) :
    takeSingle g done (c :: cs) p = takeSingle (g.lineBreak c) done cs (p.past c) := by
  rw [takeSingle.eq_def]
  exact if_pos h

theorem takeSingle_space : takeSingle g done (' ' :: cs) p =
    takeSingle (g.blank ' ') done cs (p.right 1) := by
  have hbreak : isBreak ' ' = false := by decide
  rw [takeSingle.eq_def]
  dsimp only
  rw [if_neg (by simp [hbreak])]
  exact if_pos (by decide)

theorem takeSingle_pad (hbroken : g.broken = true) (k : Nat) :
    takeSingle g done (pad k ++ cs) p = takeSingle g done cs (p.right k) := by
  induction k generalizing p with
  | zero => rfl
  | succ k ih =>
      have hgap : g.blank ' ' = g := by rw [Gap.blank, if_pos hbroken]
      have hmoved : (p.right 1).right k = p.right (k + 1) := by
        simp [Position.right, Nat.add_comm, Nat.add_left_comm]
      show takeSingle g done (' ' :: (pad k ++ cs)) p = _
      rw [takeSingle_space, hgap, ih, hmoved]

/-- The closing quote. -/
theorem takeSingle_quote (hcs : cs.head? ≠ some '\'') (hp : p.column ≠ 0) :
    takeSingle g done ('\'' :: cs) p = some ⟨(g.close done).reverse, cs, p.right 1⟩ := by
  have hmark := not_atDocumentMark hp ('\'' :: cs)
  rw [takeSingle.eq_def]
  dsimp only
  rw [if_neg (by decide), if_neg (by decide), if_neg (by simp [hmark]), if_pos rfl]
  split
  · exact absurd rfl hcs
  · rfl

/-- A word's character, a quote written twice. -/
theorem takeSingle_word (g : Gap) (done cs : List Char) (hbreak : isBreak c = false)
    (hspacing : isSpacing c = false) (hp : p.column ≠ 0) : ∃ q : Position, q.column ≠ 0 ∧
      takeSingle g done ((if c == '\'' then ['\'', '\''] else [c]) ++ cs) p =
        takeSingle .empty (c :: g.close done) cs q := by
  by_cases hquote : c = '\''
  · subst hquote
    have hmark := not_atDocumentMark hp ('\'' :: '\'' :: cs)
    refine ⟨p.right 2, Nat.succ_ne_zero _, ?_⟩
    show takeSingle g done ('\'' :: '\'' :: cs) p = _
    rw [takeSingle.eq_def]
    dsimp only
    rw [if_neg (by decide), if_neg (by decide), if_neg (by simp [hmark]), if_pos rfl]
    rfl
  · have hmark := not_atDocumentMark hp (c :: cs)
    have hsame : (if c == '\'' then ['\'', '\''] else [c]) = [c] := by simp [hquote]
    refine ⟨p.right 1, Nat.succ_ne_zero _, ?_⟩
    rw [hsame, List.singleton_append, takeSingle.eq_def]
    dsimp only
    rw [if_neg (by simp [hbreak]), if_neg (by simp [hspacing]), if_neg (by simp [hmark]),
      if_neg hquote]

end Steps

/-- What the reader knows behind a character: spaces on its line, or breaks. -/
inductive Behind (prev : Char) : Bool → Gap → List Char → Prop where
  | line {blanks : List Char} (h : prev ≠ ' ' → blanks = []) : Behind prev false (spaces blanks) blanks
  | broken {breaks : List Char} (h : isBreak prev = true) (hfeed : '\n' ∉ breaks) :
    Behind prev true (breaksGap breaks) breaks

namespace Behind

variable {prev c : Char} {broken : Bool} {g : Gap} {gap : List Char}

theorem close_eq (h : Behind prev broken g gap) (done : List Char) : g.close done = gap ++ done := by
  cases h with
  | line h => exact close_spaces gap done
  | broken h hfeed => exact close_breaksGap hfeed done

/-- A break, behind a word or another break. -/
theorem lineBreak (h : Behind prev broken g gap) (hc : isBreak c = true) (hfeed : c ≠ '\n')
    (hprev : prev ≠ ' ') : Behind c true (g.lineBreak c) (c :: gap) := by
  cases h with
  | line h =>
      obtain rfl := h hprev
      exact .broken hc fun hmem => hfeed (List.mem_singleton.mp hmem).symm
  | broken h hfeeds =>
      refine .broken hc fun hmem => ?_
      rcases List.mem_cons.mp hmem with heq | hmem
      · exact hfeed heq.symm
      · exact hfeeds hmem

/-- A space, which stands behind no break and so is kept. -/
theorem space (h : Behind prev broken g gap) (hprev : isBreak prev = false) :
    broken = false ∧ Behind ' ' false (g.blank ' ') (' ' :: gap) := by
  cases h with
  | line h => exact ⟨rfl, .line fun hne => absurd rfl hne⟩
  | broken h hfeed => exact Bool.noConfusion (h.symm.trans hprev)

/-- The indentation behind a break is passed over. -/
theorem indentation (h : Behind prev broken g gap) {indent : Nat} (hindent : indent ≠ 0)
    {p : Position} (hp : broken = false → p.column ≠ 0) : ∃ q : Position, q.column ≠ 0 ∧
      ∀ done cs, takeSingle g done ((if broken = true then pad indent else []) ++ cs) p =
        takeSingle g done cs q := by
  cases h with
  | line h => exact ⟨p, hp rfl, fun _ _ => rfl⟩
  | broken h hfeed =>
      refine ⟨p.right indent, ?_, fun done cs => takeSingle_pad rfl indent⟩
      simp only [Position.right]
      omega

end Behind

/-- **What is written between single quotes is read as it was.** -/
theorem takeSingle_singleText {indent : Nat} (hindent : indent ≠ 0) {rest : List Char}
    (hrest : rest.head? ≠ some '\'') {cs : List Char}
    (hline : ∀ c ∈ cs, isPrintable c = true ∧ c ≠ '\n') {prev : Char}
    (hbefore : hasPair (· == ' ') isBreak (prev :: cs) = false)
    (hafter : hasPair isBreak (· == ' ') (prev :: cs) = false) {broken : Bool} {g : Gap}
    {gap : List Char} (hgap : Behind prev broken g gap) (done : List Char) {p : Position}
    (hp : broken = false → p.column ≠ 0) :
    ∃ q, takeSingle g done (singleText indent broken cs ++ rest) p =
      some ⟨(gap ++ done).reverse ++ cs, rest, q⟩ := by
  induction cs generalizing prev broken g gap done p with
  | nil =>
      obtain ⟨q, hq, hpad⟩ := hgap.indentation hindent hp
      rw [singleText, List.append_assoc, hpad]
      show ∃ q', takeSingle g done ('\'' :: rest) q = _
      rw [takeSingle_quote hrest hq, hgap.close_eq, List.append_nil]
      exact ⟨_, rfl⟩
  | cons c cs ih =>
      obtain ⟨hprintable, hfeed⟩ := hline c List.mem_cons_self
      have hline' := fun d hd => hline d (List.mem_cons_of_mem c hd)
      have hbefore' := hasPair_tail hbefore
      have hafter' := hasPair_tail hafter
      have htext : (c :: gap ++ done).reverse ++ cs = (gap ++ done).reverse ++ c :: cs := by simp
      by_cases hbreak : isBreak c = true
      · -- no space stands in front of a break, so that none is dropped
        have hprev : prev ≠ ' ' := by
          intro heq
          have hno := not_second_of_hasPair hbefore (beq_iff_eq.mpr heq)
          exact Bool.noConfusion (hbreak.symm.trans hno)
        have hfirst : (if (!broken && c == '\n') = true then [c] else []) = [] := by simp [hfeed]
        obtain ⟨q, hq⟩ := ih hline' hbefore' hafter' (hgap.lineBreak hbreak hfeed hprev) done
          (p := p.past c) fun h => Bool.noConfusion h
        refine ⟨q, ?_⟩
        rw [singleText, if_pos hbreak, hfirst, List.nil_append, List.cons_append,
          takeSingle_break hbreak, hq, htext]
      · have hbreak' : isBreak c = false := by simpa using hbreak
        have hsplit : singleText indent broken (c :: cs) ++ rest =
            (if broken = true then pad indent else []) ++
              ((if c == '\'' then ['\'', '\''] else [c]) ++
                (singleText indent false cs ++ rest)) := by
          rw [singleText, if_neg hbreak]
          simp only [List.append_assoc]
        rw [hsplit]
        by_cases hspace : c = ' '
        · -- nor does one stand behind a break, where it would be indentation
          subst hspace
          have hprev : isBreak prev = false := by
            cases hprev : isBreak prev with
            | false => rfl
            | true => exact absurd (not_second_of_hasPair hafter hprev) (by decide)
          obtain ⟨rfl, hbehind⟩ := hgap.space hprev
          obtain ⟨q, hq⟩ := ih hline' hbefore' hafter' hbehind done (p := p.right 1)
            fun _ => Nat.succ_ne_zero _
          refine ⟨q, ?_⟩
          show takeSingle g done (' ' :: (singleText indent false cs ++ rest)) p = _
          rw [takeSingle_space, hq, htext]
        · have hspacing : isSpacing c = false := by
            rw [isSpacing_of_isPrintable hprintable, beq_eq_false_iff_ne]
            exact hspace
          have hbehind : Behind c false .empty [] := .line fun _ => rfl
          obtain ⟨q, hq, hpad⟩ := hgap.indentation hindent hp
          obtain ⟨q', hq', hword⟩ := takeSingle_word g done (singleText indent false cs ++ rest)
            hbreak' hspacing hq
          obtain ⟨q'', hmore⟩ := ih hline' hbefore' hafter' hbehind (c :: g.close done) (p := q')
            fun _ => hq'
          refine ⟨q'', ?_⟩
          rw [hpad, hword, hmore, hgap.close_eq]
          simp

/-- What is written between single quotes has no line feeds, and no spaces beside its breaks. -/
theorem line_of_styleOf {isKey : Bool} {s : String} (h : styleOf isKey s = .singleQuoted) :
    (∀ c ∈ s.toList, isPrintable c = true ∧ c ≠ '\n') ∧
      hasPair (· == ' ') isBreak s.toList = false ∧ hasPair isBreak (· == ' ') s.toList = false := by
  have hquoted : '\n' ∉ s.toList → isWritable s.toList = true →
      hasPair isBreak (· == ' ') s.toList = false →
      (∀ c ∈ s.toList, isPrintable c = true ∧ c ≠ '\n') ∧
        hasPair (· == ' ') isBreak s.toList = false ∧
        hasPair isBreak (· == ' ') s.toList = false := by
    intro hfeed hwritable hafter
    rw [isWritable, Bool.and_eq_true] at hwritable
    obtain ⟨hprintable, hbefore⟩ := hwritable
    refine ⟨fun c hc => ⟨List.all_eq_true.mp hprintable c hc, ?_⟩,
      by simpa [hasBlankBeforeBreak] using hbefore, hafter⟩
    rintro rfl
    exact hfeed hc
  unfold styleOf at h
  dsimp only at h
  split at h
  · split at h <;> exact absurd h (by decide)
  · next hfeed =>
    have hfeed : '\n' ∉ s.toList := by simpa using hfeed
    split at h
    · split at h
      · next hplain =>
        simp only [Bool.and_eq_true, Bool.not_eq_true'] at hplain
        exact hquoted hfeed hplain.1.1 hplain.1.2
      · exact absurd h (by decide)
    · split at h
      · exact absurd h (by decide)
      · split at h
        · next hplain =>
          simp only [Bool.and_eq_true, Bool.not_eq_true'] at hplain
          exact hquoted hfeed hplain.1.1 hplain.1.2
        · exact absurd h (by decide)

/-- **A text in single quotes is read as it was.** -/
theorem takeSingle_of_styleOf {isKey : Bool} {s : String} (h : styleOf isKey s = .singleQuoted)
    {indent : Nat} (hindent : indent ≠ 0) {rest : List Char} (hrest : rest.head? ≠ some '\'')
    {p : Position} (hp : p.column ≠ 0) :
    ∃ q, takeSingle .empty [] (singleText indent false s.toList ++ rest) p =
      some ⟨s.toList, rest, q⟩ := by
  obtain ⟨hline, hbefore, hafter⟩ := line_of_styleOf h
  -- any word character may stand in front
  have hbefore' : hasPair (· == ' ') isBreak ('\'' :: s.toList) = false := by
    rw [hasPair_cons (by decide)]
    exact hbefore
  have hafter' : hasPair isBreak (· == ' ') ('\'' :: s.toList) = false := by
    rw [hasPair_cons (by decide)]
    exact hafter
  have hbehind : Behind '\'' false .empty [] := .line fun _ => rfl
  exact takeSingle_singleText hindent hrest hline hbefore' hafter' hbehind [] fun _ => hp

/-! ## Double quotes -/

section Steps

variable {done rest : List Char} {p : Position}

/-- The digits of an escape add up, but for the last `left` of them. -/
theorem takeDouble_digits {left : Nat} (hleft : left ≠ 0) (k n value : Nat) :
    takeDouble (.digits (k + left) value) .empty done (hexText k n ++ rest) p =
      takeDouble (.digits left (value * 16 ^ k + n % 16 ^ k)) .empty done rest (p.right k) := by
  induction k generalizing n left rest with
  | zero =>
      have hvalue : value * 16 ^ 0 + n % 16 ^ 0 = value := by omega
      rw [hvalue, Nat.zero_add]
      rfl
  | succ k ih =>
      have hdigit : n % 16 < 16 := Nat.mod_lt n (by decide)
      have hmore : ¬ left + 1 ≤ 1 := by omega
      have hvalue : (value * 16 ^ k + n / 16 % 16 ^ k) * 16 + n % 16 =
          value * 16 ^ (k + 1) + n % 16 ^ (k + 1) := by
        rw [Nat.pow_succ', Nat.mod_mul]
        ring
      have hmoved : (p.right k).right 1 = p.right (k + 1) := by
        simp [Position.right, Nat.add_assoc]
      have hcount : k + 1 + left = k + (left + 1) := by omega
      rw [hexText, List.append_assoc, hcount, ih (Nat.succ_ne_zero left), List.singleton_append,
        takeDouble.eq_def]
      dsimp only
      rw [Text.Percent.hexValue?_hexDigit hdigit]
      dsimp only
      rw [if_neg hmore, hvalue, hmoved]
      rfl

/-- An escape with digits is the character with that number. -/
theorem takeDouble_hexText {c : Char} {k : Nat} (hc : c.toNat < 16 ^ (k + 1)) :
    takeDouble (.digits (k + 1) 0) .empty done (hexText (k + 1) c.toNat ++ rest) p =
      takeDouble .text .empty (c :: done) rest (p.right (k + 1)) := by
  have hdigit : c.toNat % 16 < 16 := Nat.mod_lt _ (by decide)
  have hvalue : (0 * 16 ^ k + c.toNat / 16 % 16 ^ k) * 16 + c.toNat % 16 = c.toNat := by
    have hhigh : c.toNat / 16 < 16 ^ k := by
      rw [Nat.pow_succ'] at hc
      omega
    rw [Nat.mod_eq_of_lt hhigh]
    omega
  have hvalid : c.toNat.isValidChar := c.valid
  have hmoved : (p.right k).right 1 = p.right (k + 1) := by
    simp [Position.right, Nat.add_assoc]
  rw [hexText, List.append_assoc, takeDouble_digits Nat.one_ne_zero, List.singleton_append,
    takeDouble.eq_def]
  dsimp only
  rw [Text.Percent.hexValue?_hexDigit hdigit]
  dsimp only
  rw [if_pos (Nat.le_refl 1), hvalue, if_pos hvalid, Char.ofNat_toNat, hmoved]

end Steps

theorem shortEscape?_of_escapeLetter? {c l : Char} (h : escapeLetter? c.toNat = some l) :
    shortEscape? l = some c ∧ isBreak l = false := by
  have hchar : ∀ n, c.toNat = n → c = Char.ofNat n := by
    rintro n rfl
    exact (Char.ofNat_toNat c).symm
  unfold escapeLetter? at h
  split at h
  all_goals cases h
  all_goals
    next heq =>
    rw [hchar _ heq]
    decide

section Characters

variable (blanks done rest : List Char) {p : Position}

/-- The backslash of an escape. -/
theorem takeDouble_backslash (hp : p.column ≠ 0) :
    takeDouble .text (spaces blanks) done ('\\' :: rest) p =
      takeDouble .escape .empty (blanks ++ done) rest (p.right 1) := by
  have hmark := not_atDocumentMark hp ('\\' :: rest)
  rw [takeDouble.eq_def]
  dsimp only
  rw [if_neg (by decide), if_neg (by decide), if_neg (by simp [hmark]), if_neg (by decide),
    if_pos rfl, close_spaces]

/-- **A character is read as it was**, escaped or not. -/
theorem takeDouble_doubleChar {c : Char} (hspace : c ≠ ' ') (hp : p.column ≠ 0) :
    ∃ q : Position, q.column ≠ 0 ∧ takeDouble .text (spaces blanks) done (doubleChar c ++ rest) p =
      takeDouble .text .empty (c :: (blanks ++ done)) rest q := by
  by_cases hself : (isPrintable c && !isBreak c && c != '"' && c != '\\') = true
  · have hmark := not_atDocumentMark hp (c :: rest)
    rw [doubleChar, if_pos hself]
    simp only [Bool.and_eq_true, Bool.not_eq_true', bne_iff_ne] at hself
    obtain ⟨⟨⟨hprintable, hbreak⟩, hquote⟩, hbackslash⟩ := hself
    have hspacing : isSpacing c = false := by
      rw [isSpacing_of_isPrintable hprintable, beq_eq_false_iff_ne]
      exact hspace
    refine ⟨p.right 1, Nat.succ_ne_zero _, ?_⟩
    rw [List.singleton_append, takeDouble.eq_def]
    dsimp only
    rw [if_neg (by simp [hbreak]), if_neg (by simp [hspacing]), if_neg (by simp [hmark]),
      if_neg hquote, if_neg hbackslash, close_spaces]
  · rw [doubleChar, if_neg hself]
    dsimp only
    rw [List.cons_append, takeDouble_backslash blanks done _ hp]
    -- the letter of the escape says how many digits follow
    have hdigits : ∀ (l : Char) (k : Nat), shortEscape? l = none → escapeDigits? l = some (k + 1) →
        isBreak l = false → c.toNat < 16 ^ (k + 1) → ∃ q : Position, q.column ≠ 0 ∧
          takeDouble .escape .empty (blanks ++ done) (l :: hexText (k + 1) c.toNat ++ rest) (p.right 1) =
            takeDouble .text .empty (c :: (blanks ++ done)) rest q := by
      intro l k hshort hlong hbreak hlt
      refine ⟨((p.right 1).right 1).right (k + 1), Nat.succ_ne_zero _, ?_⟩
      rw [List.cons_append, takeDouble.eq_def]
      dsimp only
      rw [if_neg (by simp [hbreak]), hshort, hlong]
      exact takeDouble_hexText hlt
    cases hletter : escapeLetter? c.toNat with
    | some l =>
        obtain ⟨hshort, hbreak⟩ := shortEscape?_of_escapeLetter? hletter
        refine ⟨(p.right 1).right 1, Nat.succ_ne_zero _, ?_⟩
        dsimp only
        rw [List.singleton_append, takeDouble.eq_def]
        dsimp only
        rw [if_neg (by simp [hbreak]), hshort]
    | none =>
        have hlarge : c.toNat < 16 ^ 8 := by
          have hvalid := c.valid
          rw [UInt32.isValidChar, Nat.isValidChar] at hvalid
          show c.val.toNat < _
          omega
        dsimp only
        split
        · exact hdigits 'x' 1 rfl rfl (by decide) (by omega)
        · split
          · exact hdigits 'u' 3 rfl rfl (by decide) (by omega)
          · exact hdigits 'U' 7 rfl rfl (by decide) hlarge

/-- **What is written between double quotes is read as it was.** -/
theorem takeDouble_flatMap (cs : List Char) (hp : p.column ≠ 0) :
    ∃ q, takeDouble .text (spaces blanks) done (cs.flatMap doubleChar ++ '"' :: rest) p =
      some ⟨(blanks ++ done).reverse ++ cs, rest, q⟩ := by
  induction cs generalizing blanks done p with
  | nil =>
      have hmark := not_atDocumentMark hp ('"' :: rest)
      refine ⟨p.right 1, ?_⟩
      rw [List.flatMap_nil, List.nil_append, takeDouble.eq_def]
      dsimp only
      rw [if_neg (by decide), if_neg (by decide), if_neg (by simp [hmark]), if_pos rfl, close_spaces,
        List.append_nil]
  | cons c cs ih =>
      have htext : (c :: blanks ++ done).reverse ++ cs = (blanks ++ done).reverse ++ c :: cs := by
        simp
      rw [List.flatMap_cons, List.append_assoc]
      by_cases hspace : c = ' '
      · subst hspace
        obtain ⟨q, hq⟩ := ih (' ' :: blanks) done (p := p.right 1)
          (Nat.succ_ne_zero _)
        refine ⟨q, ?_⟩
        show takeDouble .text (spaces blanks) done (' ' :: (cs.flatMap doubleChar ++ '"' :: rest)) p = _
        rw [takeDouble.eq_def]
        dsimp only
        rw [if_neg (by decide), if_pos (by decide), ← htext]
        exact hq
      · obtain ⟨q, hcolumn, hq⟩ := takeDouble_doubleChar blanks done
          (cs.flatMap doubleChar ++ '"' :: rest) hspace hp
        obtain ⟨q', hq'⟩ := ih [] (c :: (blanks ++ done)) hcolumn
        refine ⟨q', ?_⟩
        rw [hq, ← htext]
        exact hq'

end Characters

end BomAssembly.Yaml
