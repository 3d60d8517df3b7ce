import BomAssembly.Proofs.Yaml.BlockScalar
import BomAssembly.Proofs.Yaml.QuotedScalar
import BomAssembly.Yaml.Lexer

/-!
# Reading token by token

What the lexer does at a line that was written: a key opens a mapping if it stands deeper than all
around (`steps_key`), a dash announces an item (`steps_dash`), and a scalar behind a key is one token
(`reads_of_token`). Before each of them the collections that stand deeper are closed.
-/

namespace BomAssembly.Yaml

/-! ## Characters in front of which nothing is skipped -/

/-- A character that is no part of what separates tokens. -/
structure Visible (c : Char) : Prop where
  isBreak : isBreak c = false
  space : c ≠ ' '
  tab : c ≠ '\t'
  comment : c ≠ '#'
  orderMark : c ≠ orderMark

theorem StartsToken.visible {c : Char} (h : StartsToken c) : Visible c where
  isBreak := h.isBreak_eq
  space := h.ne (by unfold StartsToken; decide)
  tab := h.ne (by unfold StartsToken; decide)
  comment := h.ne (by unfold StartsToken; decide)
  orderMark := h.ne (by unfold StartsToken; decide)

theorem Below.visible {m : Nat} {below R : List Char} (h : Below m below R) :
    R = [] ∨ ∃ c cs, R = c :: cs ∧ Visible c := by
  cases h with
  | nothing => exact .inl rfl
  | token cs hc => exact .inr ⟨_, cs, rfl, hc.visible⟩

/-! ## Keys that are words -/

/-- A key that begins with a letter and stands in front of its value. -/
structure KeyWord (k : String) : Prop where
  letter : ∀ c ∈ k.toList.head?, c.isAlpha = true
  style : styleOf true k = .plain
  short : isShortKey k = true
  width : k.toList.length ≤ 1024

/-- That a key is a word can be computed. -/
instance : DecidablePred KeyWord := fun k =>
  decidable_of_iff (k.toList.head?.all Char.isAlpha = true ∧ styleOf true k = .plain ∧
    isShortKey k = true ∧ k.toList.length ≤ 1024)
    ⟨fun ⟨letter, style, short, width⟩ => ⟨(Option.all_eq_true _ _).mp letter, style, short, width⟩,
      fun h => ⟨(Option.all_eq_true _ _).mpr h.letter, h.style, h.short, h.width⟩⟩

theorem KeyWord.startsToken {k : String} (h : KeyWord k) :
    ∃ c cs, k.toList = c :: cs ∧ StartsToken c := by
  have hne := (plainText_of_styleOf h.style).1.ne
  obtain ⟨c, cs, hcs⟩ := List.exists_cons_of_ne_nil hne
  exact ⟨c, cs, hcs, .inr (h.letter c (by rw [hcs]; rfl))⟩

namespace Lexer

theorem skipBlank_visible {flow : Bool} {c : Char} (h : Visible c) (allowed : Bool) (cs : List Char)
    (p : Position) : skipBlank flow false allowed (c :: cs) p = (c :: cs, p, allowed) := by
  rw [skipBlank, if_neg (by simp [h.isBreak]), if_neg (by decide), if_neg (by simp [h.orderMark]),
    if_neg (by simp [h.space, h.tab]), if_neg (by simp [h.comment])]

theorem skipBlank_space (flow allowed : Bool) (cs : List Char) (p : Position) :
    skipBlank flow false allowed (' ' :: cs) p = skipBlank flow false allowed cs (p.right 1) := by
  have hmark : (' ' == orderMark) = false := by decide
  rw [skipBlank, if_neg (by decide), if_neg (by decide), if_neg (by simp [hmark]),
    if_pos (by simp)]

theorem skipBlank_pad (flow allowed : Bool) (k : Nat) (cs : List Char) (p : Position) :
    skipBlank flow false allowed (pad k ++ cs) p = skipBlank flow false allowed cs (p.right k) := by
  induction k generalizing p with
  | zero => rfl
  | succ k ih =>
      have hmoved : (p.right 1).right k = p.right (k + 1) := by
        simp [Position.right, Nat.add_comm, Nat.add_left_comm]
      show skipBlank flow false allowed (' ' :: (pad k ++ cs)) p = _
      rw [skipBlank_space, ih, hmoved]

theorem length_skipBlank_le (flow comment allowed : Bool) (cs : List Char) (p : Position) :
    (skipBlank flow comment allowed cs p).1.length ≤ cs.length := by
  induction cs generalizing comment allowed p with
  | nil => exact Nat.le_refl _
  | cons c cs ih =>
      have hmore : ∀ (comment allowed : Bool) (p : Position),
          (skipBlank flow comment allowed cs p).1.length ≤ (c :: cs).length := by
        intro comment allowed p
        have hle := ih comment allowed p
        simp only [List.length_cons]
        omega
      rw [skipBlank]
      split
      · exact hmore ..
      · split
        · exact hmore ..
        · split
          · exact hmore ..
          · split
            · exact hmore ..
            · split
              · exact hmore ..
              · exact Nat.le_refl _

theorem length_toToken_le (s : Lexer) : s.toToken.rest.length ≤ s.rest.length :=
  length_skipBlank_le s.inFlow false s.keyAllowed s.rest s.position

/-! ## One step and many -/

/-- The state behind the next token. -/
def step (s : Lexer) : Option Lexer := do
  let s ← s.toToken.dropStale
  match s.rest with
  | [] => none
  | c :: _ => (s.unroll (some s.position.column)).token c

/-- Some tokens further on; each one took a character. -/
inductive Steps : Lexer → Lexer → Prop where
  | refl (s : Lexer) : Steps s s
  | head {s s' s'' : Lexer} (h : s.step = some s') (hlt : s'.rest.length < s.rest.length)
    (hmore : Steps s' s'') : Steps s s''

theorem Steps.single {s s' : Lexer} (h : s.step = some s') (hlt : s'.rest.length < s.rest.length) :
    Steps s s' :=
  .head h hlt (.refl s')

theorem Steps.trans {s s' s'' : Lexer} (h : Steps s s') (h' : Steps s' s'') : Steps s s'' := by
  induction h with
  | refl => exact h'
  | head hstep hlt _ ih => exact .head hstep hlt (ih h')

theorem run_of_step {s s' : Lexer} (h : s.step = some s') (fuel : Nat) :
    run (fuel + 1) s = run fuel s' := by
  rw [step] at h
  rw [run]
  cases hfresh : s.toToken.dropStale with
  | none =>
      rw [hfresh] at h
      exact absurd h (by simp)
  | some t =>
      rw [hfresh] at h
      dsimp only [Option.bind_eq_bind, Option.bind_some] at h ⊢
      cases hrest : t.rest with
      | nil =>
          rw [hrest] at h
          exact absurd h (by simp)
      | cons c cs =>
          rw [hrest] at h
          dsimp only at h ⊢
          rw [h]
          rfl

theorem rest_of_dropStale {s t : Lexer} (h : s.dropStale = some t) : t.rest = s.rest := by
  obtain ⟨pending, -, h⟩ := Option.bind_eq_some_iff.mp h
  obtain ⟨outer, -, h⟩ := Option.bind_eq_some_iff.mp h
  rw [← Option.some.inj h]

/-- **As much fuel as there are characters is enough** to get to the end. -/
theorem Steps.run_eq {s s' t : Lexer} (h : Steps s s') (hend : s'.toToken.rest = [])
    (hfresh : s'.toToken.dropStale = some t) {fuel : Nat} (hfuel : s.rest.length ≤ fuel) :
    run fuel s = t.finish := by
  have hrest := rest_of_dropStale hfresh
  induction h generalizing fuel with
  | refl s =>
      cases fuel with
      | zero =>
          rw [run, hend, hfresh]
          rfl
      | succ fuel =>
          rw [run, hfresh]
          dsimp only [Option.bind_eq_bind, Option.bind_some]
          rw [hrest, hend]
  | head hstep hlt _ ih =>
      -- a character was there to be taken, so that there is fuel for it
      obtain ⟨fuel, rfl⟩ : ∃ k, fuel = k + 1 := ⟨fuel - 1, by omega⟩
      rw [run_of_step hstep]
      exact ih hend hfresh (by omega) hrest

/-! ## In front of a token -/

/-- Nothing, or the next token at a column, is next; a key may begin there. -/
structure Stands (s : Lexer) (m : Nat) (R : List Char) : Prop where
  rest : s.toToken.rest = R
  column : R ≠ [] → s.toToken.position.column = m
  allowed : R ≠ [] → s.toToken.keyAllowed = true
  pending : s.pending = none
  outer : s.outer = []

/-- The collections that stay open at a column. -/
def openTo (m : Nat) (indents : List Nat) : List Nat := indents.dropWhile fun i => m < i

/-- The tokens when the others are closed. -/
def closedTo (m : Nat) (indents : List Nat) (tokens : List Token) : List Token :=
  (indents.takeWhile fun i => m < i).map (fun _ => .blockEnd) ++ tokens

theorem openTo_openTo {m n : Nat} (h : m ≤ n) (indents : List Nat) :
    openTo m (openTo n indents) = openTo m indents := by
  induction indents with
  | nil => rfl
  | cons i is ih =>
      by_cases hi : n < i
      · have hi' : m < i := by omega
        have hn : openTo n (i :: is) = openTo n is := by simp [openTo, hi]
        have hm : openTo m (i :: is) = openTo m is := by simp [openTo, hi']
        rw [hn, hm, ih]
      · have hn : openTo n (i :: is) = i :: is := by simp [openTo, hi]
        rw [hn]

theorem closedTo_closedTo {m n : Nat} (h : m ≤ n) (indents : List Nat) (tokens : List Token) :
    closedTo m (openTo n indents) (closedTo n indents tokens) = closedTo m indents tokens := by
  induction indents generalizing tokens with
  | nil => rfl
  | cons i is ih =>
      by_cases hi : n < i
      · have hi' : m < i := by omega
        have hn : openTo n (i :: is) = openTo n is := by simp [openTo, hi]
        -- all that is put there closes something, so it does not matter in which order
        have hpush : ∀ k (is : List Nat) (tokens : List Token),
            Token.blockEnd :: closedTo k is tokens = closedTo k is (.blockEnd :: tokens) := by
          intro k is tokens
          unfold closedTo
          rw [← List.cons_append, ← List.singleton_append (l := tokens), ← List.append_assoc]
          congr 1
          rw [List.map_const', ← List.replicate_succ, List.replicate_succ']
        have hcn : closedTo n (i :: is) tokens = .blockEnd :: closedTo n is tokens := by
          simp [closedTo, hi]
        have hcm : closedTo m (i :: is) tokens = .blockEnd :: closedTo m is tokens := by
          simp [closedTo, hi']
        rw [hn, hcn, hcm, hpush, hpush, ih]
      · have hn : openTo n (i :: is) = i :: is := by simp [openTo, hi]
        have hcn : closedTo n (i :: is) tokens = tokens := by simp [closedTo, hi]
        rw [hn, hcn]

theorem dropStale_of_none {s : Lexer} (hpending : s.pending = none) (houter : s.outer = []) :
    s.dropStale = some s := by
  obtain ⟨rest, position, tokens, indents, keyAllowed, pending, outer⟩ := s
  dsimp only at hpending houter
  rw [hpending, houter]
  rfl

theorem unroll_eq {s : Lexer} (houter : s.outer = []) (m : Nat) : s.unroll (some m) =
    { s with indents := openTo m s.indents, tokens := closedTo m s.indents s.tokens } := by
  have hflow : s.inFlow = false := by rw [inFlow, houter]; rfl
  have hdrop : s.indents.drop (s.indents.takeWhile fun i => m < i).length =
      openTo m s.indents := by
    calc s.indents.drop (s.indents.takeWhile fun i => m < i).length
        = ((s.indents.takeWhile fun i => m < i) ++ openTo m s.indents).drop
            (s.indents.takeWhile fun i => m < i).length := by
          rw [openTo, List.takeWhile_append_dropWhile]
      _ = openTo m s.indents := List.drop_left
  rw [unroll, hflow]
  dsimp only
  rw [if_neg (by decide), hdrop]
  rfl

/-- The state at a token: what stands deeper is closed. -/
theorem Stands.step_eq {s : Lexer} {m : Nat} {c : Char} {cs : List Char} (h : s.Stands m (c :: cs)) :
    ∃ p : Position, p.column = m ∧ s.step = token c ⟨c :: cs, p, closedTo m s.indents s.tokens,
      openTo m s.indents, true, none, []⟩ := by
  have hne : c :: cs ≠ [] := List.cons_ne_nil c cs
  have hcolumn := h.column hne
  have hallowed := h.allowed hne
  have hrest := h.rest
  have houter : s.toToken.outer = [] := h.outer
  have hpending : s.toToken.pending = none := h.pending
  refine ⟨s.toToken.position, hcolumn, ?_⟩
  rw [step, dropStale_of_none hpending houter]
  dsimp only [Option.bind_eq_bind, Option.bind_some]
  rw [hrest]
  dsimp only
  rw [unroll_eq houter, hcolumn]
  have hsame : s.toToken = ⟨c :: cs, s.toToken.position, s.tokens, s.indents, true, none, []⟩ := by
    rw [← hrest, ← hallowed, ← hpending, ← houter]
    rfl
  rw [hsame]

/-- What stands on the lines below is next after a line end. -/
theorem stands_lineEnd {below R : List Char} {m : Nat} (hbelow : Below m below R) (p : Position)
    (tokens : List Token) (indents : List Nat) (allowed : Bool) :
    Stands ⟨'\n' :: below, p, tokens, indents, allowed, none, []⟩ m R := by
  have hskip : skipBlank false false allowed ('\n' :: below) p =
      skipBlank false false true below ⟨p.line + 1, 0⟩ := by
    rw [skipBlank, if_pos (by decide)]
    simp [Position.past, isBreak]
  have hflow : inFlow ⟨'\n' :: below, p, tokens, indents, allowed, none, []⟩ = false := rfl
  cases hbelow with
  | nothing =>
      refine ⟨?_, fun hne => absurd rfl hne, fun hne => absurd rfl hne, rfl, rfl⟩
      rw [toToken, hflow]
      dsimp only
      rw [hskip]
      rfl
  | @token c cs hc =>
      have hnext : skipBlank false false allowed ('\n' :: (pad m ++ c :: cs)) p =
          (c :: cs, (⟨p.line + 1, 0⟩ : Position).right m, true) := by
        rw [hskip, skipBlank_pad, skipBlank_visible hc.visible]
      have hcolumn : ((⟨p.line + 1, 0⟩ : Position).right m).column = m := Nat.zero_add m
      refine ⟨?_, fun _ => ?_, fun _ => ?_, rfl, rfl⟩
      all_goals
        rw [toToken, hflow]
        dsimp only
        rw [hnext]
      exact hcolumn

/-- What is next stands where the reader is, or nothing is left. -/
theorem stands_here {R : List Char} {m : Nat} (hR : R = [] ∨ ∃ c cs, R = c :: cs ∧ Visible c)
    {p : Position} (hp : R ≠ [] → p.column = m) (tokens : List Token) (indents : List Nat)
    {allowed : Bool} (hallowed : R ≠ [] → allowed = true) :
    Stands ⟨R, p, tokens, indents, allowed, none, []⟩ m R := by
  have hflow : inFlow ⟨R, p, tokens, indents, allowed, none, []⟩ = false := rfl
  have hnext : skipBlank false false allowed R p = (R, p, allowed) := by
    rcases hR with rfl | ⟨c, cs, rfl, hc⟩
    · rfl
    · exact skipBlank_visible hc allowed cs p
  have hsame : toToken ⟨R, p, tokens, indents, allowed, none, []⟩ =
      ⟨R, p, tokens, indents, allowed, none, []⟩ := by
    rw [toToken, hflow]
    dsimp only
    rw [hnext]
  refine ⟨?_, ?_, ?_, rfl, rfl⟩
  · rw [hsame]
  · rw [hsame]
    exact hp
  · rw [hsame]
    exact hallowed

/-! ## Plain scalars -/

/-- Which characters in front make a plain scalar. -/
structure StartsPlain (c : Char) (cs : List Char) : Prop where
  indicator : "#,[]\x7b\x7d&*!|>'\"%@\x60".toList.contains c = false
  word : ((c == '?' || c == ':' || c == '-') && endsWord cs) = false
  spacing : isSpacing c = false

theorem startsPlain_eq {c : Char} {cs : List Char} (h : StartsPlain c cs) :
    startsPlain false (c :: cs) = true := by
  have hword := h.word
  rw [startsPlain]
  split
  · next hdash =>
    rw [hdash, Bool.or_true, Bool.true_and] at hword
    cases cs with
    | nil => rfl
    | cons d ds =>
        rw [endsWord, Bool.or_eq_false_iff] at hword
        simp [hword.1]
  · split
    · next hmark =>
      rw [hmark, Bool.true_or, Bool.true_and] at hword
      rw [hword]
      rfl
    · rw [h.spacing, h.indicator]
      rfl

theorem ne_of_isAlpha {c d : Char} (hc : c.isAlpha = true) (hd : d.isAlpha = false) : c ≠ d := by
  rintro rfl
  exact Bool.noConfusion (hc.symm.trans hd)

/-- A letter makes a plain scalar, whatever stands behind it. -/
theorem startsPlain_of_isAlpha {c : Char} (hc : c.isAlpha = true) (cs : List Char) :
    StartsPlain c cs := by
  refine ⟨?_, ?_, StartsToken.isSpacing_eq (.inr hc)⟩
  · rw [List.contains_eq_mem, decide_eq_false_iff_not]
    intro hmem
    have hnone : "#,[]\x7b\x7d&*!|>'\"%@\x60".toList.any Char.isAlpha = false := by decide
    exact List.any_eq_false.mp hnone c hmem hc
  · have hquestion : c ≠ '?' := ne_of_isAlpha hc (by decide)
    have hcolon : c ≠ ':' := ne_of_isAlpha hc (by decide)
    have hdash : c ≠ '-' := ne_of_isAlpha hc (by decide)
    simp [hdash, hquestion, hcolon]

theorem token_plain {c : Char} {cs : List Char} (h : StartsPlain c cs) {s : Lexer}
    (houter : s.outer = []) (hrest : s.rest = c :: cs)
    (hstart : atMark startMark s.position s.rest = false)
    (hend : atMark endMark s.position s.rest = false) : s.token c = s.plain := by
  have hflow : s.inFlow = false := by rw [inFlow, houter]; rfl
  have hne : ∀ d ∈ "#,[]\x7b\x7d&*!|>'\"%@\x60".toList, (c == d) = false := by
    intro d hd
    rw [beq_eq_false_iff_ne]
    rintro rfl
    have hnot := h.indicator
    rw [List.contains_eq_mem, decide_eq_false_iff_not] at hnot
    exact hnot hd
  obtain ⟨⟨hquestion, hcolon⟩, hdash⟩ : (((c == '?') && endsWord cs) = false ∧
      ((c == ':') && endsWord cs) = false) ∧ ((c == '-') && endsWord cs) = false := by
    simpa [Bool.and_or_distrib_right] using h.word
  have hnext : s.rest.drop 1 = cs := by rw [hrest]; rfl
  have hplain : startsPlain s.inFlow s.rest = true := by rw [hflow, hrest, startsPlain_eq h]
  rw [token, hstart, hend, hnext, hplain, hflow, Bool.false_or, hquestion, hcolon, hdash,
    hne '%' (by decide), hne '[' (by decide), hne '\x7b' (by decide), hne ']' (by decide),
    hne '\x7d' (by decide), hne ',' (by decide), hne '*' (by decide), hne '&' (by decide),
    hne '!' (by decide), hne '|' (by decide), hne '>' (by decide), hne '\'' (by decide),
    hne '"' (by decide), Bool.and_false]
  rfl

/-! ## Keys and items -/

/-- An entry of a mapping at a column: it opens the mapping if that stands deeper than all around. -/
inductive OpensMapping (m : Nat) : List Nat → List Token → List Nat → List Token → Prop where
  | fresh {indents : List Nat} {tokens : List Token} (h : ∀ i ∈ indents.head?, i < m) :
    OpensMapping m indents tokens (m :: indents) (.blockMapping :: tokens)
  | again {indents : List Nat} {tokens : List Token} :
    OpensMapping m (m :: indents) tokens (m :: indents) tokens

/-- The scalar of a key; its place is remembered. -/
theorem plain_key {k : String} (hk : KeyWord k) {rest : List Char} (hrest : endsWord rest = true)
    (p : Position) (tokens : List Token) (indents : List Nat) :
    ∃ required, plain ⟨k.toList ++ ':' :: rest, p, tokens, indents, true, none, []⟩ =
      some ⟨':' :: rest, p.right k.toList.length, .scalar .plain k.toList :: tokens, indents, false,
        some ⟨tokens.length, p, required⟩, []⟩ := by
  have htake := fun indent => (plainText_of_styleOf hk.style).1.take_key p indent hrest
  refine ⟨indents.head? == some p.column, ?_⟩
  have hsave : saveKey ⟨k.toList ++ ':' :: rest, p, tokens, indents, true, none, []⟩ =
      some ⟨k.toList ++ ':' :: rest, p, tokens, indents, true,
        some ⟨tokens.length, p, indents.head? == some p.column⟩, []⟩ := by
    rw [saveKey]
    rfl
  have hflow : inFlow ⟨k.toList ++ ':' :: rest, p, tokens, indents, true,
      some ⟨tokens.length, p, indents.head? == some p.column⟩, []⟩ = false := rfl
  rw [plain, hsave]
  dsimp only [Option.bind_eq_bind, Option.bind_some]
  rw [hflow, htake]
  rfl

/-- The colon behind a key puts the tokens of the key in front of its scalar. -/
theorem value_key {m : Nat} {indents indents' : List Nat} {tokens tokens' : List Token}
    (hopen : OpensMapping m indents tokens indents' tokens') (scalar : Token) (rest : List Char)
    {p q : Position} (hp : p.column = m) (required : Bool) :
    value ⟨':' :: rest, q, scalar :: tokens, indents, false, some ⟨tokens.length, p, required⟩, []⟩ =
      some ⟨rest, q.right 1, .value :: scalar :: .key :: tokens', indents', false, none, []⟩ := by
  have hbehind : (scalar :: tokens).length - tokens.length = 1 := by simp
  subst hp
  cases hopen with
  | fresh h =>
      have hdeeper : deepens ⟨':' :: rest, q, scalar :: tokens, indents, false,
          some ⟨tokens.length, p, required⟩, []⟩ p.column = true := by
        cases indents with
        | nil => rfl
        | cons i is => simpa [deepens, inFlow] using h i (by simp)
      rw [value]
      dsimp only
      rw [if_pos hdeeper, pushAt, hbehind]
      rfl
  | @again indents =>
      have hdeeper : deepens ⟨':' :: rest, q, scalar :: tokens, p.column :: indents, false,
          some ⟨tokens.length, p, required⟩, []⟩ p.column = false := by
        simp [deepens]
      rw [value]
      dsimp only
      rw [if_neg (by simp [hdeeper]), pushAt, hbehind]
      rfl

theorem OpensMapping.head_le {m : Nat} {indents indents' : List Nat} {tokens tokens' : List Token}
    (h : OpensMapping m indents tokens indents' tokens') : ∀ i ∈ indents.head?, i ≤ m := by
  cases h with
  | fresh h => exact fun i hi => Nat.le_of_lt (h i hi)
  | again => exact fun i hi => Nat.le_of_eq (Option.some.inj hi).symm

/-- Nothing is closed where nothing stands deeper. -/
theorem openTo_of_le {m : Nat} {indents : List Nat} (h : ∀ i ∈ indents.head?, i ≤ m)
    (tokens : List Token) : openTo m indents = indents ∧ closedTo m indents tokens = tokens := by
  cases indents with
  | nil => exact ⟨rfl, rfl⟩
  | cons i is =>
      have hle : ¬ m < i := Nat.not_lt.mpr (h i rfl)
      constructor
      · simp [openTo, hle]
      · simp [closedTo, hle]

theorem token_colon {rest : List Char} (hrest : endsWord rest = true) {s : Lexer}
    (h : s.rest = ':' :: rest) : s.token ':' = s.value := by
  have hstart : atMark startMark s.position s.rest = false := by simp [atMark, startMark, h]
  have hend : atMark endMark s.position s.rest = false := by simp [atMark, endMark, h]
  have hnext : s.rest.drop 1 = rest := by rw [h]; rfl
  rw [token, hstart, hend, hnext, hrest]
  simp

/-- A colon right behind what may be a key. -/
theorem step_colon {rest : List Char} (hrest : endsWord rest = true) {p : Position}
    {tokens : List Token} {indents : List Nat} {k : PendingKey} (hline : k.position.line = p.line)
    (hnear : p.column ≤ k.position.column + 1024) (hdeep : ∀ i ∈ indents.head?, i ≤ p.column) :
    step ⟨':' :: rest, p, tokens, indents, false, some k, []⟩ =
      value ⟨':' :: rest, p, tokens, indents, false, some k, []⟩ := by
  have hvisible : Visible ':' := ⟨by decide, by decide, by decide, by decide, by decide⟩
  have hflow : inFlow ⟨':' :: rest, p, tokens, indents, false, some k, []⟩ = false := rfl
  have htoken : toToken ⟨':' :: rest, p, tokens, indents, false, some k, []⟩ =
      ⟨':' :: rest, p, tokens, indents, false, some k, []⟩ := by
    rw [toToken, hflow]
    dsimp only
    rw [skipBlank_visible hvisible]
  have hfresh : dropStale ⟨':' :: rest, p, tokens, indents, false, some k, []⟩ =
      some ⟨':' :: rest, p, tokens, indents, false, some k, []⟩ := by
    -- the key stands on the same line and near enough, so it is not given up
    have hkept : refresh p (some k) = some (some k) := by
      have hnot : ¬ (k.position.line < p.line ∨ k.position.column + 1024 < p.column) := by omega
      rw [refresh, if_neg (by simpa using hnot)]
    rw [dropStale]
    dsimp only
    rw [hkept]
    rfl
  obtain ⟨hopen, hclosed⟩ := openTo_of_le hdeep tokens
  rw [step, htoken, hfresh]
  dsimp only [Option.bind_eq_bind, Option.bind_some]
  rw [unroll_eq rfl]
  dsimp only
  rw [hopen, hclosed, token_colon hrest rfl]

/-- **A key and its colon** are read in two steps. -/
theorem Stands.steps_key {s : Lexer} {m : Nat} {k : String} (hk : KeyWord k) {rest : List Char}
    (hs : s.Stands m (k.toList ++ ':' :: rest)) (hrest : endsWord rest = true)
    {indents : List Nat} {tokens : List Token} (hopen : OpensMapping m (openTo m s.indents)
      (closedTo m s.indents s.tokens) indents tokens) :
    ∃ p : Position, m ≤ p.column ∧ Steps s ⟨rest, p,
      .value :: .scalar .plain k.toList :: .key :: tokens, indents, false, none, []⟩ := by
  obtain ⟨c, cs, hcs, -⟩ := hk.startsToken
  have hc : c.isAlpha = true := hk.letter c (by rw [hcs]; rfl)
  have hlength := s.length_toToken_le
  rw [hs.rest, hcs] at hlength
  simp only [List.cons_append, List.length_cons, List.length_append] at hlength
  rw [hcs, List.cons_append] at hs
  obtain ⟨p, hp, hstep⟩ := hs.step_eq
  -- the scalar, whose place is remembered
  have hfirst : ∃ required, s.step = some ⟨':' :: rest, p.right k.toList.length,
      .scalar .plain k.toList :: closedTo m s.indents s.tokens, openTo m s.indents, false,
      some ⟨(closedTo m s.indents s.tokens).length, p, required⟩, []⟩ := by
    obtain ⟨required, hplain⟩ := plain_key hk hrest p (closedTo m s.indents s.tokens)
      (openTo m s.indents)
    refine ⟨required, ?_⟩
    rw [hstep, ← hplain, hcs, List.cons_append]
    have hdash : c ≠ '-' := ne_of_isAlpha hc (by decide)
    have hdot : c ≠ '.' := ne_of_isAlpha hc (by decide)
    refine token_plain (startsPlain_of_isAlpha hc (cs ++ ':' :: rest)) rfl rfl ?_ ?_
    · simp [atMark, startMark, hdash.symm]
    · simp [atMark, endMark, hdot.symm]
  obtain ⟨required, hfirst⟩ := hfirst
  -- the colon, with nothing in front of it
  have hwidth : k.toList.length ≤ 1024 := hk.width
  have hsecond : step ⟨':' :: rest, p.right k.toList.length,
      .scalar .plain k.toList :: closedTo m s.indents s.tokens, openTo m s.indents, false,
      some ⟨(closedTo m s.indents s.tokens).length, p, required⟩, []⟩ =
      some ⟨rest, (p.right k.toList.length).right 1,
        .value :: .scalar .plain k.toList :: .key :: tokens, indents, false, none, []⟩ := by
    rw [← value_key hopen (.scalar .plain k.toList) rest hp required]
    refine step_colon hrest ?_ ?_ ?_
    · rfl
    · simp only [Position.right]
      omega
    · intro i hi
      simp only [Position.right]
      have hle := hopen.head_le i hi
      omega
  refine ⟨_, ?_, .head hfirst ?_ (.single hsecond ?_)⟩
  · simp only [Position.right]
    omega
  · simp only [List.length_cons]
    omega
  · simp

/-- **A dash** announces an item, in a sequence that stands as deep as the key in front of it. -/
theorem Stands.steps_dash {s : Lexer} {m : Nat} {rest : List Char} {indents : List Nat}
    (hs : s.Stands m ('-' :: ' ' :: rest)) (hopen : openTo m s.indents = m :: indents) :
    ∃ p : Position, p.column = m + 1 ∧ Steps s ⟨' ' :: rest, p,
      .blockEntry :: closedTo m s.indents s.tokens, m :: indents, true, none, []⟩ := by
  have hlength := s.length_toToken_le
  rw [hs.rest] at hlength
  simp only [List.length_cons] at hlength
  obtain ⟨p, hp, hstep⟩ := hs.step_eq
  refine ⟨p.right 1, by rw [← hp]; rfl, .single ?_ (by simp only [List.length_cons]; omega)⟩
  have hdeeper : deepens ⟨'-' :: ' ' :: rest, p, closedTo m s.indents s.tokens, m :: indents, true,
      none, []⟩ p.column = false := by
    simp [deepens, hp]
  have htoken : token '-' ⟨'-' :: ' ' :: rest, p, closedTo m s.indents s.tokens, m :: indents, true,
      none, []⟩ = blockEntry ⟨'-' :: ' ' :: rest, p, closedTo m s.indents s.tokens, m :: indents, true,
      none, []⟩ := by
    simp [token, atMark, startMark, endMark, endsWord, isSpacing]
  rw [hstep, hopen, htoken, blockEntry, roll, hdeeper]
  rfl

theorem stands_space {c : Char} (hc : Visible c) (cs : List Char) (p : Position)
    (tokens : List Token) (indents : List Nat) :
    Stands ⟨' ' :: c :: cs, p, tokens, indents, true, none, []⟩ (p.column + 1) (c :: cs) := by
  have hflow : inFlow ⟨' ' :: c :: cs, p, tokens, indents, true, none, []⟩ = false := rfl
  have hnext : skipBlank false false true (' ' :: c :: cs) p = (c :: cs, p.right 1, true) := by
    rw [skipBlank_space, skipBlank_visible hc]
  refine ⟨?_, fun _ => ?_, fun _ => ?_, rfl, rfl⟩
  all_goals
    rw [toToken, hflow]
    dsimp only
    rw [hnext]
  rfl

/-! ## Scalars behind a key -/

/-- Behind a key of a mapping at a column a text is read as some tokens, up to what stands below. -/
def Reads (n : Nat) (text : List Char) (read : List Token) (m : Nat) (R : List Char) : Prop :=
  ∀ (p : Position) (tokens : List Token) (indents : List Nat), n ≤ p.column →
    ∃ s, Steps ⟨' ' :: text, p, tokens, n :: indents, false, none, []⟩ s ∧
      s.tokens = read.reverse ++ tokens ∧ s.indents = n :: indents ∧ s.Stands m R

/-- What stands behind a token that ends by itself: the end of the line, or that of the stream. -/
structure EndsHere (m : Nat) (tail R : List Char) : Prop where
  quote : tail.head? ≠ some '\''
  stands : ∀ (p : Position) (tokens : List Token) (indents : List Nat),
    Stands ⟨tail, p, tokens, indents, false, none, []⟩ m R

theorem endsHere_line {m : Nat} {below R : List Char} (h : Below m below R) :
    EndsHere m ('\n' :: below) R :=
  ⟨by simp, fun p tokens indents => stands_lineEnd h p tokens indents false⟩

theorem endsHere_all (m : Nat) : EndsHere m [] [] :=
  ⟨by simp, fun _ tokens indents => stands_here (.inl rfl) (fun h => absurd rfl h) tokens indents
    fun h => absurd rfl h⟩

/-- The token behind the blank. -/
theorem step_behind {c : Char} (hc : Visible c) (cs : List Char) {p : Position} (tokens : List Token)
    {indents : List Nat} (hdeep : ∀ i ∈ indents.head?, i ≤ p.column) :
    step ⟨' ' :: c :: cs, p, tokens, indents, false, none, []⟩ =
      token c ⟨c :: cs, p.right 1, tokens, indents, false, none, []⟩ := by
  have hflow : inFlow ⟨' ' :: c :: cs, p, tokens, indents, false, none, []⟩ = false := rfl
  have htoken : toToken ⟨' ' :: c :: cs, p, tokens, indents, false, none, []⟩ =
      ⟨c :: cs, p.right 1, tokens, indents, false, none, []⟩ := by
    rw [toToken, hflow]
    dsimp only
    rw [skipBlank_space, skipBlank_visible hc]
  have hdeep' : ∀ i ∈ indents.head?, i ≤ (p.right 1).column := by
    intro i hi
    have hle := hdeep i hi
    simp only [Position.right]
    omega
  obtain ⟨hopen, hclosed⟩ := openTo_of_le hdeep' tokens
  rw [step, htoken, dropStale_of_none rfl rfl]
  dsimp only [Option.bind_eq_bind, Option.bind_some]
  rw [unroll_eq rfl]
  dsimp only
  rw [hopen, hclosed]

/-- A token that is read in one step behind a key. -/
theorem reads_of_token {c : Char} (hc : Visible c) {n m : Nat} {cs R : List Char} {read : Token}
    (h : ∀ (p : Position) (tokens : List Token) (indents : List Nat), p.column ≠ 0 → ∃ s : Lexer,
      token c ⟨c :: cs, p, tokens, n :: indents, false, none, []⟩ = some s ∧
        s.rest.length ≤ cs.length ∧ s.tokens = read :: tokens ∧ s.indents = n :: indents ∧
        s.Stands m R) : Reads n (c :: cs) [read] m R := by
  intro p tokens indents hp
  have hcolumn : (p.right 1).column ≠ 0 := Nat.succ_ne_zero _
  obtain ⟨s, hs, hlength, htokens, hindents, hstands⟩ := h (p.right 1) tokens indents hcolumn
  have hdeep : ∀ i ∈ (n :: indents).head?, i ≤ p.column := by
    intro i hi
    rw [← Option.some.inj hi]
    exact hp
  have hstep : step ⟨' ' :: c :: cs, p, tokens, n :: indents, false, none, []⟩ = some s := by
    rw [step_behind hc cs tokens hdeep, hs]
  refine ⟨s, .single hstep ?_, htokens, hindents, hstands⟩
  simp only [List.length_cons]
  omega

end Lexer

end BomAssembly.Yaml
