import BomAssembly.Proofs.Number.Spelling
import BomAssembly.Proofs.Yaml.Steps
import BomAssembly.Text.Blank

/-!
# Scalars behind keys

Whatever can stand behind a key on its line is read back as what it was written from: a text in any of
the four styles, a number, a sequence without items (`reads_leaf`). It is also read back when the
stream ends right behind it, where the line end that was written does not belong to it
(`reads_leaf_all`).
-/

namespace BomAssembly.Yaml

open Number (isDigit_of_mem_toDigits toList_toString_nat)

theorem Below.length_le {m : Nat} {below R : List Char} (h : Below m below R) :
    R.length ≤ below.length := by
  cases h with
  | nothing => exact Nat.le_refl _
  | token cs hc => simp

theorem PlainText.startsPlain {c : Char} {cs : List Char} (h : PlainText (c :: cs))
    (hvisible : Visible c) {rest : List Char} (hrest : endsWord rest = true) :
    Lexer.StartsPlain c (cs ++ rest) := by
  have hstart := h.start
  rw [startsWithIndicator, Bool.or_eq_false_iff, Bool.or_eq_false_iff, Bool.or_eq_false_iff] at hstart
  refine ⟨hstart.1.1.1, ?_, by simp [isSpacing, hvisible.space, hvisible.tab]⟩
  have hword : endsWord (cs ++ rest) = endsWord cs := by
    cases cs with
    | nil => exact hrest
    | cons d ds => rfl
  rw [hword]
  exact hstart.1.1.2

theorem PlainText.visible {c : Char} {cs : List Char} (h : PlainText (c :: cs))
    (hc : isPrintable c = true) : Visible c := by
  obtain ⟨hbreak, htab, -, -⟩ := h.tail
  have hstart := h.start
  rw [startsWithIndicator, Bool.or_eq_false_iff, Bool.or_eq_false_iff, Bool.or_eq_false_iff] at hstart
  refine ⟨hbreak, ?_, htab, ?_, ?_⟩
  · rintro rfl
    exact h.noBlank rfl
  · rintro rfl
    exact absurd hstart.1.1.1 (by decide)
  · exact ne_of_isPrintable hc (by decide)

namespace Lexer

section Scalars

variable {n m : Nat} {tail below R : List Char}

/-! ## Plain scalars -/

/-- A plain scalar is read like its text is taken. -/
theorem reads_plain {cs : List Char} (h : PlainText cs) (hprintable : ∀ c ∈ cs, isPrintable c = true)
    (hrest : endsWord tail = true) (hR : R = [] ∨ ∃ c cs, R = c :: cs ∧ Visible c)
    (hlength : R.length ≤ tail.length) {broken : Bool} (hbroken : R ≠ [] → broken = true)
    (htake : ∀ p : Position, ∃ q, takePlain false (n + 1) .empty [] (cs ++ tail) p =
      some ⟨(cs, broken), R, q⟩ ∧ (R ≠ [] → q.column = m)) :
    Reads n (cs ++ tail) [.scalar .plain cs] m R := by
  obtain ⟨c, ds, rfl⟩ := List.exists_cons_of_ne_nil h.ne
  have hvisible := h.visible (hprintable c List.mem_cons_self)
  rw [List.cons_append]
  refine reads_of_token hvisible fun p tokens indents hp => ?_
  obtain ⟨q, hq, hcolumn⟩ := htake p
  rw [List.cons_append] at hq
  -- behind a key no document begins or ends, whatever the text looks like
  have hmark : ∀ mark, atMark mark p (c :: (ds ++ tail)) = false := by
    intro mark
    have hzero : (p.column == 0) = false := beq_eq_false_iff_ne.mpr hp
    simp [atMark, hzero]
  refine ⟨⟨R, q, .scalar .plain (c :: ds) :: tokens, n :: indents, broken, none, []⟩, ?_, ?_, rfl, rfl,
    stands_here hR hcolumn _ _ hbroken⟩
  · rw [token_plain (h.startsPlain hvisible hrest) rfl rfl (hmark _) (hmark _)]
    have hflow : inFlow ⟨c :: (ds ++ tail), p, tokens, n :: indents, false, none, []⟩ = false := rfl
    have hsave : saveKey ⟨c :: (ds ++ tail), p, tokens, n :: indents, false, none, []⟩ =
        some ⟨c :: (ds ++ tail), p, tokens, n :: indents, false, none, []⟩ := rfl
    rw [plain, hsave]
    dsimp only [Option.bind_eq_bind, Option.bind_some]
    rw [hflow, hq]
    rfl
  · show R.length ≤ (ds ++ tail).length
    rw [List.length_append]
    omega

theorem reads_plain_line {cs : List Char} (h : PlainText cs)
    (hprintable : ∀ c ∈ cs, isPrintable c = true) (hbelow : Below m below R) (hm : m ≤ n) :
    Reads n (cs ++ '\n' :: below) [.scalar .plain cs] m R := by
  have hlength := hbelow.length_le
  refine reads_plain h hprintable rfl hbelow.visible ?_ (fun _ => rfl)
    fun p => h.take_line p hbelow (show m < n + 1 by omega)
  rw [List.length_cons]
  omega

theorem reads_plain_all {cs : List Char} (h : PlainText cs)
    (hprintable : ∀ c ∈ cs, isPrintable c = true) (m : Nat) :
    Reads n cs [.scalar .plain cs] m [] := by
  have hread : Reads n (cs ++ []) [.scalar .plain cs] m [] := by
    have hnothing : ∀ {q : Prop}, ([] : List Char) ≠ [] → q := fun hne => absurd rfl hne
    have htake : ∀ p : Position, ∃ q, takePlain false (n + 1) .empty [] (cs ++ []) p =
        some ⟨(cs, false), [], q⟩ ∧ (([] : List Char) ≠ [] → q.column = m) := by
      intro p
      obtain ⟨q, hq⟩ := h.take_all p (n + 1)
      rw [List.append_nil]
      exact ⟨q, hq, hnothing⟩
    exact reads_plain h hprintable rfl (.inl rfl) (Nat.le_refl _) hnothing htake
  rwa [List.append_nil] at hread

/-! ## Quoted scalars -/

/-- A scalar behind an indicator; nothing can be a key here. -/
theorem item_behind {take : List Char → Position → Option (Taken (List Char))}
    (token : List Char → Token) {c : Char} {rest : List Char} {p q : Position} {text : List Char}
    (h : take rest (p.right 1) = some ⟨text, tail, q⟩) (tokens : List Token) (indents : List Nat) :
    item (behind take) token ⟨c :: rest, p, tokens, indents, false, none, []⟩ =
      some ⟨tail, q, token text :: tokens, indents, false, none, []⟩ := by
  have hsave : saveKey ⟨c :: rest, p, tokens, indents, false, none, []⟩ =
      some ⟨c :: rest, p, tokens, indents, false, none, []⟩ := rfl
  have hbehind : behind take (c :: rest) p = some ⟨text, tail, q⟩ := h
  rw [item, hsave]
  dsimp only [Option.bind_eq_bind, Option.bind_some]
  rw [hbehind]
  rfl

section Tokens

variable {s : Lexer} (houter : s.outer = []) (hcolumn : s.position.column ≠ 0)

include houter hcolumn

theorem token_single : s.token '\'' =
    s.item (behind (takeSingle .empty [])) (.scalar .singleQuoted) := by
  simp [token, atMark, hcolumn, inFlow, houter]

theorem token_double : s.token '"' =
    s.item (behind (takeDouble .text .empty [])) (.scalar .doubleQuoted) := by
  simp [token, atMark, hcolumn, inFlow, houter]

theorem token_block : s.token '|' = s.block false := by
  simp [token, atMark, hcolumn, inFlow, houter]

omit houter in
theorem token_openFlow : s.token '[' = s.openFlow .flowSequence := by
  simp [token, atMark, hcolumn]

end Tokens

theorem reads_single {s : String} (h : styleOf false s = .singleQuoted) (htail : EndsHere m tail R) :
    Reads n ('\'' :: (singleText (n + 2) false s.toList ++ tail)) [.scalar .singleQuoted s.toList] m
      R := by
  have hvisible : Visible '\'' := ⟨by decide, by decide, by decide, by decide, by decide⟩
  refine reads_of_token hvisible fun p tokens indents hp => ?_
  obtain ⟨q, hq⟩ := takeSingle_of_styleOf h (Nat.succ_ne_zero (n + 1)) htail.quote
    (p := p.right 1) (Nat.succ_ne_zero _)
  refine ⟨⟨tail, q, .scalar .singleQuoted s.toList :: tokens, n :: indents, false, none, []⟩, ?_, ?_,
    rfl, rfl, htail.stands q _ _⟩
  · rw [token_single rfl hp]
    exact item_behind (.scalar .singleQuoted) hq tokens _
  · show tail.length ≤ (singleText (n + 2) false s.toList ++ tail).length
    rw [List.length_append]
    omega

theorem reads_double (s : String) (htail : EndsHere m tail R) :
    Reads n ('"' :: (s.toList.flatMap doubleChar ++ '"' :: tail)) [.scalar .doubleQuoted s.toList] m
      R := by
  have hvisible : Visible '"' := ⟨by decide, by decide, by decide, by decide, by decide⟩
  refine reads_of_token hvisible fun p tokens indents hp => ?_
  obtain ⟨q, hq⟩ := takeDouble_flatMap [] [] tail s.toList (p := p.right 1) (Nat.succ_ne_zero _)
  refine ⟨⟨tail, q, .scalar .doubleQuoted s.toList :: tokens, n :: indents, false, none, []⟩, ?_, ?_,
    rfl, rfl, htail.stands q _ _⟩
  · rw [token_double rfl hp]
    exact item_behind (.scalar .doubleQuoted) hq tokens _
  · show tail.length ≤ (s.toList.flatMap doubleChar ++ '"' :: tail).length
    rw [List.length_append, List.length_cons]
    omega

/-! ## Blocks -/

theorem block_of_take {rest : List Char} {p q : Position} {text : List Char}
    (h : takeBlock false (some n) rest (p.right 1) = some ⟨text, R, q⟩) (tokens : List Token)
    (indents : List Nat) :
    block false ⟨'|' :: rest, p, tokens, n :: indents, false, none, []⟩ =
      some ⟨R, q, .scalar .literal text :: tokens, n :: indents, true, none, []⟩ := by
  have hdrop : dropKey ⟨'|' :: rest, p, tokens, n :: indents, false, none, []⟩ =
      some ⟨'|' :: rest, p, tokens, n :: indents, false, none, []⟩ := rfl
  rw [block, hdrop]
  dsimp only [Option.bind_eq_bind, Option.bind_some, List.head?_cons]
  rw [List.drop_one, List.tail_cons, h]
  rfl

theorem reads_block_line {s : String} (h : styleOf false s = .literal) (hbelow : Below m below R)
    (hm : m ≤ n) :
    Reads n ('|' :: (blockHints s.toList ++ '\n' ::
      (blockLines (n + 2) true (endLine s.toList) ++ below))) [.scalar .literal s.toList] m R := by
  have hvisible : Visible '|' := ⟨by decide, by decide, by decide, by decide, by decide⟩
  have hlength := hbelow.length_le
  refine reads_of_token hvisible fun p tokens indents hp => ?_
  obtain ⟨q, hq, hcolumn⟩ := takeBlock_of_styleOf h hbelow hm (p.right 1)
  refine ⟨⟨R, q, .scalar .literal s.toList :: tokens, n :: indents, true, none, []⟩, ?_, ?_,
    rfl, rfl, stands_here hbelow.visible hcolumn _ _ fun _ => rfl⟩
  · rw [token_block rfl hp]
    exact block_of_take hq tokens indents
  · show R.length ≤ _
    simp only [List.length_append, List.length_cons]
    omega

theorem reads_block_all {cs ds : List Char} {c : Char} (hhead : cs.head? = (ds ++ [c]).head?)
    (hprintable : ∀ d ∈ ds ++ [c], isPrintable d = true) (hc : isBreak c = false) (m : Nat) :
    Reads n ('|' :: (blockHints cs ++ '\n' :: blockLines (n + 2) true (ds ++ [c])))
      [.scalar .literal (ds ++ [c])] m [] := by
  have hvisible : Visible '|' := ⟨by decide, by decide, by decide, by decide, by decide⟩
  refine reads_of_token hvisible fun p tokens indents hp => ?_
  obtain ⟨q, hq⟩ := takeBlock_all hhead hprintable hc n (p.right 1)
  refine ⟨⟨[], q, .scalar .literal (ds ++ [c]) :: tokens, n :: indents, true, none, []⟩, ?_,
    Nat.zero_le _, rfl, rfl, stands_here (.inl rfl) (fun hne => absurd rfl hne) _ _ fun _ => rfl⟩
  rw [token_block rfl hp]
  exact block_of_take hq tokens indents

/-! ## Sequences without items -/

/-- The closing bracket, right behind the opening one. -/
theorem step_closeFlow (tail : List Char) (p : Position) (tokens : List Token) (indents : List Nat) :
    step ⟨']' :: tail, p, tokens, indents, true, none, [none]⟩ =
      some ⟨tail, p.right 1, .flowSequenceEnd :: tokens, indents, false, none, []⟩ := by
  simp [step, toToken, skipBlank, inFlow, isBreak, orderMark, dropStale, refresh, unroll, token,
    atMark, startMark, endMark, closeFlow, dropKey, push, skip]

theorem reads_noItems (htail : EndsHere m tail R) :
    Reads n ('[' :: ']' :: tail) [.flowSequence, .flowSequenceEnd] m R := by
  intro p tokens indents hp
  have hvisible : Visible '[' := ⟨by decide, by decide, by decide, by decide, by decide⟩
  have hdeep : ∀ i ∈ (n :: indents).head?, i ≤ p.column := by
    intro i hi
    rw [← Option.some.inj hi]
    exact hp
  have hfirst : step ⟨' ' :: '[' :: ']' :: tail, p, tokens, n :: indents, false, none, []⟩ =
      some ⟨']' :: tail, (p.right 1).right 1, .flowSequence :: tokens, n :: indents, true, none,
        [none]⟩ := by
    rw [step_behind hvisible _ tokens hdeep, token_openFlow (Nat.succ_ne_zero _)]
    rfl
  refine ⟨_, .head hfirst (by simp) (.single (step_closeFlow tail _ _ _) (by simp)), rfl, rfl,
    htail.stands _ _ _⟩

end Scalars

end Lexer

/-! ## What is written on one line -/

/-- What can be written behind a key on its line. -/
inductive Data.IsLeaf : Data → Prop where
  | str (s : String) : IsLeaf (.str s)
  | nat (i : Nat) : IsLeaf (.int i)
  | noItems : IsLeaf (.seq [])

/-- The tokens that it is read as. -/
def Data.leafTokens : Data → List Token
  | .str s => [.scalar (styleOf false s) s.toList]
  | .int i => [.scalar .plain (toString i).toList]
  | _ => [.flowSequence, .flowSequenceEnd]

theorem digit_bounds {c : Char} (h : c.isDigit = true) : 48 ≤ c.toNat ∧ c.toNat ≤ 57 := by
  simp only [Char.isDigit, Bool.and_eq_true, decide_eq_true_eq, ge_iff_le,
    UInt32.le_iff_toNat_le] at h
  exact h

theorem ne_of_isDigit {c d : Char} (hc : c.isDigit = true) (hd : d.isDigit = false) : c ≠ d := by
  rintro rfl
  exact Bool.noConfusion (hc.symm.trans hd)

theorem plainTail_of_digits {ds : List Char} (h : ∀ c ∈ ds, c.isDigit = true) :
    PlainTail false ds := by
  induction ds with
  | nil => rfl
  | cons c cs ih =>
      have hc := h c List.mem_cons_self
      have hbreak : isBreak c = false := by
        have hle := (digit_bounds hc).2
        simp only [isBreak, Bool.or_eq_false_iff, beq_eq_false_iff_ne]
        exact ⟨⟨ne_of_isDigit hc (by decide), by omega⟩, by omega⟩
      have hspace : (c == ' ') = false := beq_eq_false_iff_ne.mpr (ne_of_isDigit hc (by decide))
      refine ⟨hbreak, ne_of_isDigit hc (by decide), fun _ => rfl, ?_, ?_⟩
      · intro heq
        exact absurd heq (ne_of_isDigit hc (by decide))
      · rw [hspace]
        exact ih fun d hd => h d (List.mem_cons_of_mem c hd)

theorem plainText_of_digits {ds : List Char} (hne : ds ≠ []) (h : ∀ c ∈ ds, c.isDigit = true) :
    PlainText ds := by
  obtain ⟨c, cs, rfl⟩ := List.exists_cons_of_ne_nil hne
  have hc := h c List.mem_cons_self
  refine ⟨hne, plainTail_of_digits h, ?_, ?_⟩
  · have hlist : "#,[]\x7b\x7d&*!|>'\"%@\x60".toList.contains c = false := by
      have hnone : "#,[]\x7b\x7d&*!|>'\"%@\x60".toList.any Char.isDigit = false := by decide
      rw [List.contains_eq_mem, decide_eq_false_iff_not]
      intro hmem
      exact List.any_eq_false.mp hnone c hmem hc
    have hquestion := ne_of_isDigit hc (d := '?') (by decide)
    have hcolon := ne_of_isDigit hc (d := ':') (by decide)
    have hdash := ne_of_isDigit hc (d := '-') (by decide)
    have hdot := ne_of_isDigit hc (d := '.') (by decide)
    simp only [startsWithIndicator, hlist]
    simp [hquestion, hcolon, hdash, startMark, endMark, List.isPrefixOf, hdash.symm, hdot.symm]
  · intro heq
    exact ne_of_isDigit hc (by decide) (Option.some.inj heq)

theorem isDigit_of_mem_nat {i : Nat} {c : Char} (h : c ∈ (toString (i : Int)).toList) :
    c.isDigit = true := by
  rw [toList_toString_nat] at h
  exact isDigit_of_mem_toDigits h

/-- A number is written plainly. -/
theorem plainText_nat (i : Nat) : PlainText (toString (i : Int)).toList ∧
    ∀ c ∈ (toString (i : Int)).toList, isPrintable c = true := by
  have hne : (toString (i : Int)).toList ≠ [] := by
    rw [toList_toString_nat]
    exact Nat.toDigits_ne_nil
  refine ⟨plainText_of_digits hne fun c hc => isDigit_of_mem_nat hc, fun c hc => ?_⟩
  obtain ⟨hlow, hhigh⟩ := digit_bounds (isDigit_of_mem_nat hc)
  have hrange : 0x20 ≤ c.toNat ∧ c.toNat ≤ 0x7E := by omega
  simp [isPrintable, hrange]

theorem PlainTail.isBreak_eq {spaced : Bool} {cs : List Char} (h : PlainTail spaced cs) :
    ∀ c ∈ cs, isBreak c = false := by
  induction cs generalizing spaced with
  | nil => exact fun c hc => absurd hc List.not_mem_nil
  | cons c cs ih =>
      obtain ⟨hbreak, -, -, -, hmore⟩ := h
      intro d hd
      rcases List.mem_cons.mp hd with rfl | hd
      · exact hbreak
      · exact ih hmore d hd

/-- A line that a text does not end itself is ended. -/
theorem endLine_of_last {cs : List Char} (h : ∀ c ∈ cs.getLast?, isBreak c = false) :
    endLine cs = cs ++ ['\n'] := by
  unfold endLine
  refine if_neg ?_
  rw [Option.any_eq_true]
  rintro ⟨c, hc, hbreak⟩
  exact Bool.noConfusion (hbreak.symm.trans (h c hc))

theorem PlainText.endLine_eq {cs : List Char} (h : PlainText cs) : endLine cs = cs ++ ['\n'] :=
  endLine_of_last fun c hc => h.tail.isBreak_eq c (List.mem_of_getLast? hc)

theorem getLast?_singleText (indent : Nat) (broken : Bool) (cs : List Char) :
    (singleText indent broken cs).getLast? = some '\'' := by
  induction cs generalizing broken with
  | nil =>
      rw [singleText, List.getLast?_append]
      rfl
  | cons c cs ih =>
      rw [singleText]
      split
      · rw [List.getLast?_append, List.getLast?_cons, ih]
        rfl
      · rw [List.getLast?_append, ih]
        rfl

theorem styleOf_cases (isKey : Bool) (s : String) : styleOf isKey s = .plain ∨
    styleOf isKey s = .singleQuoted ∨ styleOf isKey s = .doubleQuoted ∨ styleOf isKey s = .literal := by
  unfold styleOf
  dsimp only
  split
  · split <;> simp
  · split
    · split <;> simp
    · split
      · simp
      · split <;> simp

/-- **What is written behind a key is read as itself**, with what stands below it. -/
theorem reads_leaf {d : Data} (hd : d.IsLeaf) {n m : Nat} {below R : List Char}
    (hbelow : Below m below R) (hm : m ≤ n) :
    Lexer.Reads n (endLine (d.inline n) ++ below) d.leafTokens m R := by
  have hends := Lexer.endsHere_line hbelow
  cases hd with
  | nat i =>
      obtain ⟨hplain, hprintable⟩ := plainText_nat i
      have hinline : Data.inline n (.int i) = (toString (i : Int)).toList := rfl
      rw [hinline, hplain.endLine_eq, List.append_assoc]
      exact Lexer.reads_plain_line hplain hprintable hbelow hm
  | noItems => exact Lexer.reads_noItems hends
  | str s =>
      have hinline : Data.inline n (.str s) = scalarText false (n + 2) s := rfl
      have hread : (Data.str s).leafTokens = [.scalar (styleOf false s) s.toList] := rfl
      rw [hinline, hread, scalarText]
      rcases styleOf_cases false s with h | h | h | h
      · obtain ⟨hplain, -, -, hprintable⟩ := plainText_of_styleOf h
        rw [h, hplain.endLine_eq, List.append_assoc]
        exact Lexer.reads_plain_line hplain hprintable hbelow hm
      · have hended : endLine ('\'' :: singleText (n + 2) false s.toList) =
            '\'' :: singleText (n + 2) false s.toList ++ ['\n'] := by
          refine endLine_of_last fun c hc => ?_
          rw [List.getLast?_cons, getLast?_singleText] at hc
          obtain rfl := Option.some.inj hc
          decide
        rw [h]
        dsimp only
        rw [hended, List.append_assoc]
        exact Lexer.reads_single h hends
      · have hended : endLine ('"' :: (s.toList.flatMap doubleChar ++ ['"'])) =
            '"' :: (s.toList.flatMap doubleChar ++ ['"']) ++ ['\n'] := by
          refine endLine_of_last fun c hc => ?_
          rw [List.getLast?_cons, List.getLast?_concat] at hc
          obtain rfl := Option.some.inj hc
          decide
        rw [h]
        dsimp only
        rw [List.cons_append, hended, List.append_assoc, List.cons_append, List.append_assoc]
        exact Lexer.reads_double s hends
      · obtain ⟨hne, -⟩ := block_of_styleOf h
        have hsplit : '|' :: blockHints s.toList ++ '\n' :: blockLines (n + 2) true s.toList =
            ('|' :: (blockHints s.toList ++ ['\n'])) ++ blockLines (n + 2) true s.toList := by simp
        rw [h]
        dsimp only
        rw [hsplit, endLine_blockLines _ _ hne]
        have hread := Lexer.reads_block_line (n := n) h hbelow hm
        simpa using hread

/-- What is written plainly or as a block does not end in a blank. -/
def Data.KeepsEnd : Data → Prop
  | .str s => styleOf false s = .plain ∨ styleOf false s = .literal →
      ∀ c ∈ s.toList.getLast?, Text.isBlank c = false
  | _ => True

theorem not_isBreak_of_not_isBlank {c : Char} (h : Text.isBlank c = false) : isBreak c = false := by
  cases hbreak : isBreak c with
  | false => rfl
  | true =>
      simp only [isBreak, Bool.or_eq_true, beq_iff_eq] at hbreak
      rcases hbreak with (rfl | hbreak) | hbreak
      · exact absurd h (by decide)
      · simp [Text.isBlank, hbreak] at h
      · simp [Text.isBlank, hbreak] at h

/-- **At the end of the stream it is read as itself too**, without the end of its line, unless its end
is a blank that nothing marks as its own. -/
theorem reads_leaf_all {d : Data} (hd : d.IsLeaf) (hkeeps : d.KeepsEnd) (n m : Nat) :
    Lexer.Reads n (d.inline n) d.leafTokens m [] := by
  have hends := Lexer.endsHere_all m
  cases hd with
  | nat i =>
      obtain ⟨hplain, hprintable⟩ := plainText_nat i
      exact Lexer.reads_plain_all hplain hprintable m
  | noItems => exact Lexer.reads_noItems hends
  | str s =>
      have hinline : Data.inline n (.str s) = scalarText false (n + 2) s := rfl
      have hread : (Data.str s).leafTokens = [.scalar (styleOf false s) s.toList] := rfl
      rw [hinline, hread, scalarText]
      rcases styleOf_cases false s with h | h | h | h
      · obtain ⟨hplain, -, -, hprintable⟩ := plainText_of_styleOf h
        rw [h]
        exact Lexer.reads_plain_all hplain hprintable m
      · have hsingle := Lexer.reads_single (n := n) h hends
        rw [List.append_nil] at hsingle
        rw [h]
        exact hsingle
      · rw [h]
        exact Lexer.reads_double s hends
      · obtain ⟨hne, hprintable⟩ := block_of_styleOf h
        obtain ⟨init, c, hlast⟩ : ∃ init c, s.toList = init ++ [c] :=
          ⟨_, _, (List.dropLast_concat_getLast hne).symm⟩
        -- here the text has to end inside its last line
        have hc : isBreak c = false := by
          refine not_isBreak_of_not_isBlank (hkeeps (.inr h) c ?_)
          rw [hlast, List.getLast?_concat]
          rfl
        rw [h, hlast]
        rw [hlast] at hprintable
        exact Lexer.reads_block_all rfl hprintable hc m

end BomAssembly.Yaml
