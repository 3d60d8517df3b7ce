import BomAssembly.Proofs.Yaml.Leaves

/-!
# Reading inside brackets

Inside brackets indentation means nothing: white space and line ends are passed over, and no key has
to follow anywhere, so that a place where a key might have begun can always be forgotten. The one
place that must not be forgotten is that of a name whose colon is still to come: it is kept as long as
the colon stands on the same line and near enough (`Facing.reaches_name`). Outside the brackets a tab
must not stand where a key could begin (`stuck_first`, `Inside.stuck_last`).
-/

namespace BomAssembly.Yaml

/-! ## White space -/

/-- White space, before line ends are read as one. -/
def Spacing (cs : List Char) : Prop := ∀ c ∈ cs, c = ' ' ∨ c = '\t' ∨ c = '\n' ∨ c = '\r'

/-- White space, with every line end a line feed. -/
def Passed (cs : List Char) : Prop := ∀ c ∈ cs, c = ' ' ∨ c = '\t' ∨ c = '\n'

/-- A character that is no line end of a kind that is read as another. -/
structure Kept (c : Char) : Prop where
  feed : c ≠ '\n'
  return_ : c ≠ '\r'
  next : c.toNat ≠ 0x85

theorem normalized_cons {c : Char} (h : Kept c) (cs : List Char) :
    normalized (c :: cs) = c :: normalized cs := by
  rw [normalized, if_neg (not_or.mpr ⟨h.return_, h.next⟩)]
  exact fun rest heq => absurd heq h.return_

theorem normalized_append {ds : List Char} (h : ∀ c ∈ ds, Kept c) (cs : List Char) :
    normalized (ds ++ cs) = ds ++ normalized cs := by
  induction ds with
  | nil => rfl
  | cons d ds ih =>
      rw [List.cons_append, normalized_cons (h d List.mem_cons_self),
        ih fun c hc => h c (List.mem_cons_of_mem d hc)]
      rfl

theorem length_normalized_le (cs : List Char) : (normalized cs).length ≤ cs.length := by
  fun_induction normalized cs with
  | case1 => exact Nat.le_refl _
  | case2 rest ih =>
      simp only [List.length_cons]
      omega
  | case3 c rest _ ih => exact Nat.succ_le_succ ih

/-- White space stays white space. -/
theorem normalized_spacing {space cs : List Char} (h : Spacing space) (hcs : cs.head? ≠ some '\n') :
    ∃ gap, Passed gap ∧ ('\t' ∉ space → '\t' ∉ gap) ∧
      ((∃ c ∈ space, c ≠ ' ' ∧ c ≠ '\t') → '\n' ∈ gap) ∧
      normalized (space ++ cs) = gap ++ normalized cs := by
  have hone : ∀ {c : Char} {gap : List Char}, (c = ' ' ∨ c = '\t' ∨ c = '\n') → Passed gap →
      Passed (c :: gap) := fun hc hgap => List.forall_mem_cons.mpr ⟨hc, hgap⟩
  induction space using normalized.induct with
  | case1 => exact ⟨[], fun _ hc => absurd hc List.not_mem_nil, fun _ => List.not_mem_nil, by simp, rfl⟩
  | case2 rest ih =>
      obtain ⟨gap, hgap, htab, -, hrest⟩ := ih fun c hc => h c (by simp [hc])
      refine ⟨'\n' :: gap, hone (by simp) hgap, fun hno => ?_, fun _ => List.mem_cons_self, ?_⟩
      · simpa using htab fun hmem => hno (by simp [hmem])
      · rw [List.cons_append, List.cons_append, normalized, hrest]
        rfl
  | case3 c rest hpair ih =>
      obtain ⟨gap, hgap, htab, hfeed, hrest⟩ := ih fun d hd => h d (List.mem_cons_of_mem c hd)
      have hc := h c List.mem_cons_self
      obtain ⟨d, hd, hone', htab', hfeed'⟩ :
          ∃ d, (if c = '\r' ∨ c.toNat = 0x85 then '\n' else c) = d ∧
            (d = ' ' ∨ d = '\t' ∨ d = '\n') ∧ ('\t' = d → '\t' = c) ∧
            (c ≠ ' ' ∧ c ≠ '\t' → d = '\n') := by
        rcases hc with rfl | rfl | rfl | rfl <;> exact ⟨_, rfl, by decide, by decide, by decide⟩
      refine ⟨d :: gap, hone hone' hgap, fun hno => ?_, ?_, ?_⟩
      · rw [List.mem_cons, not_or] at hno ⊢
        exact ⟨fun heq => hno.1 (htab' heq), htab hno.2⟩
      · rintro ⟨e, he, hline⟩
        rcases List.mem_cons.mp he with rfl | he
        · rw [hfeed' hline]
          exact List.mem_cons_self
        · exact List.mem_cons_of_mem d (hfeed ⟨e, he, hline⟩)
      · rw [List.cons_append, normalized, hd, hrest]
        · rfl
        · -- no line feed comes behind a carriage return
          intro more hreturn hfeed
          cases rest with
          | nil => exact hcs (by rw [show cs = '\n' :: more from hfeed]; rfl)
          | cons d ds =>
              rw [List.cons_append] at hfeed
              obtain ⟨rfl, rfl⟩ := List.cons_eq_cons.mp hfeed
              exact hpair ds hreturn rfl

namespace Lexer

/-- Behind white space a token is next. -/
theorem skipBlank_passed {gap : List Char} (h : Passed gap) {c : Char} (hc : Visible c)
    (allowed : Bool) (cs : List Char) (p : Position) : ∃ q : Position,
      skipBlank true false allowed (gap ++ c :: cs) p = (c :: cs, q, allowed) ∧
        ('\n' ∉ gap → q = p.right gap.length) ∧ ('\n' ∈ gap → p.line < q.line) := by
  induction gap generalizing p with
  | nil => exact ⟨p, skipBlank_visible hc allowed cs p, fun _ => rfl, by simp⟩
  | cons d gap ih =>
      have hmore : Passed gap := fun e he => h e (List.mem_cons_of_mem d he)
      have hmoved : (p.right 1).right gap.length = p.right (d :: gap).length := by
        simp [Position.right, Nat.add_comm, Nat.add_left_comm]
      have hblank : d = ' ' ∨ d = '\t' → ∃ q : Position,
          skipBlank true false allowed (d :: (gap ++ c :: cs)) p = (c :: cs, q, allowed) ∧
            ('\n' ∉ d :: gap → q = p.right (d :: gap).length) ∧
            ('\n' ∈ d :: gap → p.line < q.line) := by
        intro hd
        obtain ⟨q, hq, hright, hbelow⟩ := ih hmore (p.right 1)
        refine ⟨q, ?_, fun hfeed => ?_, fun hfeed => ?_⟩
        · rcases hd with rfl | rfl
          · rw [skipBlank_space, hq]
          · have hmark : ('\t' == orderMark) = false := by decide
            rw [skipBlank, if_neg (by decide), if_neg (by decide), if_neg (by simp [hmark]),
              if_pos (by simp), hq]
        · rw [hright fun hmem => hfeed (List.mem_cons_of_mem d hmem), hmoved]
        · rcases List.mem_cons.mp hfeed with rfl | hmem
          · exact absurd hd (by decide)
          · exact hbelow hmem
      rcases h d List.mem_cons_self with hd | hd | rfl
      · exact hblank (.inl hd)
      · exact hblank (.inr hd)
      · obtain ⟨q, hq, hright, hbelow⟩ := ih hmore (p.past '\n')
        refine ⟨q, ?_, fun hfeed => absurd List.mem_cons_self hfeed, fun _ => ?_⟩
        · rw [List.cons_append, skipBlank, if_pos (by decide)]
          simpa using hq
        · have hdown : p.line < (p.past '\n').line := Nat.lt_succ_self p.line
          by_cases hmem : '\n' ∈ gap
          · exact Nat.lt_trans hdown (hbelow hmem)
          · rw [hright hmem]
            exact hdown

/-! ## Places of keys that can be forgotten -/

/-- No key has to follow here. -/
def Loose (k : Option PendingKey) : Prop := ∀ k' ∈ k, k'.required = false

theorem loose_none : Loose none := fun _ h => absurd h (by simp)

theorem Loose.refresh {k : Option PendingKey} (h : Loose k) (p : Position) :
    ∃ k', refresh p k = some k' ∧ Loose k' := by
  cases k with
  | none => exact ⟨none, rfl, loose_none⟩
  | some k =>
      have hk : k.required = false := h k rfl
      rw [Lexer.refresh]
      split
      · rw [hk]
        exact ⟨none, rfl, loose_none⟩
      · exact ⟨some k, rfl, h⟩

theorem mapM_refresh {ks : List (Option PendingKey)} (h : ∀ k ∈ ks, Loose k) (p : Position) :
    ∃ ks', ks.mapM (refresh p) = some ks' ∧ (∀ k ∈ ks', Loose k) ∧ ks'.length = ks.length := by
  induction ks with
  | nil => exact ⟨[], rfl, fun _ hk => absurd hk List.not_mem_nil, rfl⟩
  | cons k ks ih =>
      obtain ⟨k', hk', hloose⟩ := (h k List.mem_cons_self).refresh p
      obtain ⟨ks', hks', hmore, hlength⟩ := ih fun k hk => h k (List.mem_cons_of_mem _ hk)
      refine ⟨k' :: ks', ?_, List.forall_mem_cons.mpr ⟨hloose, hmore⟩, congrArg (· + 1) hlength⟩
      rw [List.mapM_cons, hk']
      dsimp only [Option.bind_eq_bind, Option.bind_some]
      rw [hks']
      rfl

/-- Inside so many brackets, where no key has to follow. -/
structure Inside (n : Nat) (s : Lexer) : Prop where
  indents : s.indents = []
  depth : s.outer.length = n
  pending : Loose s.pending
  around : ∀ k ∈ s.outer, Loose k

namespace Inside

variable {n : Nat} {s : Lexer}

theorem inFlow_eq (h : s.Inside (n + 1)) : s.inFlow = true := by
  have hdepth := h.depth
  rw [inFlow]
  cases houter : s.outer with
  | nil =>
      rw [houter] at hdepth
      exact absurd hdepth (by simp)
  | cons k ks => rfl

/-- The places that have become stale are forgotten. -/
theorem dropStale_eq (h : s.Inside n) : ∃ pending outer,
    s.dropStale = some { s with pending, outer } ∧ refresh s.position s.pending = some pending ∧
      Inside n { s with pending, outer } := by
  obtain ⟨pending, hpending, hloose⟩ := h.pending.refresh s.position
  obtain ⟨outer, houter, haround, hlength⟩ := mapM_refresh h.around s.position
  refine ⟨pending, outer, ?_, hpending, ⟨h.indents, hlength.trans h.depth, hloose, haround⟩⟩
  rw [dropStale, hpending]
  dsimp only [Option.bind_eq_bind, Option.bind_some]
  rw [houter]
  rfl

/-- No block collection is open, so that none is closed. -/
theorem unroll_eq (h : s.Inside n) (column : Option Nat) : s.unroll column = s := by
  obtain ⟨rest, position, tokens, indents, keyAllowed, pending, outer⟩ := s
  obtain rfl : indents = [] := h.indents
  rw [unroll]
  split <;> rfl

theorem dropKey_eq (h : s.Inside n) : s.dropKey = some { s with pending := none } := by
  obtain ⟨rest, position, tokens, indents, keyAllowed, pending, outer⟩ := s
  cases pending with
  | none => rfl
  | some k =>
      have hk : k.required = false := h.pending k rfl
      rw [dropKey]
      dsimp only
      rw [hk]
      rfl

/-- A key may begin here, but need not. -/
theorem saveKey_eq (h : s.Inside n) : ∃ pending, s.saveKey = some { s with pending } ∧ Loose pending ∧
    (s.keyAllowed = true → pending = some ⟨s.tokens.length, s.position, false⟩) := by
  have hrequired : (!s.inFlow && s.indents.head? == some s.position.column) = false := by
    rw [h.indents]
    simp
  by_cases hallowed : s.keyAllowed = true
  · refine ⟨some ⟨s.tokens.length, s.position, false⟩, ?_, ?_, fun _ => rfl⟩
    · rw [saveKey, if_pos hallowed, hrequired, h.dropKey_eq]
      rfl
    · rintro k ⟨⟩
      rfl
  · refine ⟨s.pending, ?_, h.pending, fun hno => absurd hno hallowed⟩
    rw [saveKey, if_neg hallowed]

/-- **The next token inside brackets**, behind white space. -/
theorem step_eq (h : s.Inside (n + 1)) {gap : List Char} (hgap : Passed gap) {c : Char}
    (hc : Visible c) {cs : List Char} (hrest : s.rest = gap ++ c :: cs) : ∃ t : Lexer,
      s.step = token c t ∧ t.Inside (n + 1) ∧ t.rest = c :: cs ∧ t.tokens = s.tokens ∧
        t.keyAllowed = s.keyAllowed ∧ refresh t.position s.pending = some t.pending ∧
          ('\n' ∉ gap → t.position = s.position.right gap.length) ∧
          ('\n' ∈ gap → s.position.line < t.position.line) := by
  obtain ⟨q, hq, hright, hbelow⟩ := skipBlank_passed hgap hc s.keyAllowed cs s.position
  have hnext : s.toToken = { s with rest := c :: cs, position := q } := by
    rw [toToken, h.inFlow_eq, hrest, hq]
  have hinside : Inside (n + 1) { s with rest := c :: cs, position := q } :=
    ⟨h.indents, h.depth, h.pending, h.around⟩
  obtain ⟨pending, outer, hfresh, hpending, hinside'⟩ := hinside.dropStale_eq
  refine ⟨{ s with rest := c :: cs, position := q, pending, outer }, ?_, hinside', rfl, rfl, rfl,
    hpending, hright, hbelow⟩
  rw [step, hnext, hfresh]
  dsimp only [Option.bind_eq_bind, Option.bind_some]
  rw [hinside'.unroll_eq]

end Inside

/-! ## What comes next -/

/-- Inside so many brackets, with white space and a text to come. -/
structure Facing (n : Nat) (s : Lexer) (cs : List Char) : Prop extends Inside n s where
  rest : ∃ gap, Passed gap ∧ s.rest = gap ++ normalized cs

/-- Some tokens further on, in front of a text. -/
structure Reaches (s s' : Lexer) (n : Nat) (cs : List Char) (read : List Token) : Prop where
  steps : Steps s s'
  facing : s'.Facing n cs
  tokens : s'.tokens = read.reverse ++ s.tokens

theorem Reaches.trans {s s' s'' : Lexer} {n m : Nat} {cs ds : List Char} {read read' : List Token}
    (h : s.Reaches s' n cs read) (h' : s'.Reaches s'' m ds read') :
    s.Reaches s'' m ds (read ++ read') :=
  ⟨h.steps.trans h'.steps, h'.facing, by
    rw [h'.tokens, h.tokens, List.reverse_append, List.append_assoc]⟩

theorem Facing.refl {s : Lexer} {n : Nat} {cs : List Char} (h : s.Facing n cs) :
    s.Reaches s n cs [] := ⟨.refl s, h, rfl⟩

namespace Facing

variable {n : Nat} {s : Lexer} {c : Char} {cs : List Char}

/-- White space in front of the text. -/
theorem skip {space : List Char} (h : s.Facing n (space ++ cs)) (hspace : Spacing space)
    (hcs : cs.head? ≠ some '\n') : s.Facing n cs := by
  obtain ⟨gap, hgap, hrest⟩ := h.rest
  obtain ⟨gap', hgap', -, -, hnormal⟩ := normalized_spacing hspace hcs
  refine ⟨h.toInside, gap ++ gap', List.forall_mem_append.mpr ⟨hgap, hgap'⟩, ?_⟩
  rw [hrest, hnormal, List.append_assoc]

theorem of_rest (h : s.Inside n) (hrest : s.rest = normalized cs) : s.Facing n cs :=
  ⟨h, [], fun _ hc => absurd hc List.not_mem_nil, hrest⟩

end Facing

/-- Somewhere on the way something stands that is no token. -/
def Stuck (s : Lexer) : Prop := ∃ s', Steps s s' ∧ s'.step = none ∧ s'.toToken.rest ≠ []

theorem Stuck.of_steps {s s' : Lexer} (h : s'.Stuck) (hsteps : Steps s s') : s.Stuck := by
  obtain ⟨t, hmore, hstep, hrest⟩ := h
  exact ⟨t, hsteps.trans hmore, hstep, hrest⟩

theorem Reaches.stuck {s s' : Lexer} {n : Nat} {cs : List Char} {read : List Token}
    (h : s.Reaches s' n cs read) (h' : s'.Stuck) : s.Stuck := h'.of_steps h.steps

/-- A stream with something that is no token is not read. -/
theorem Stuck.run_eq {s : Lexer} (h : s.Stuck) {fuel : Nat} (hfuel : s.rest.length ≤ fuel) :
    run fuel s = none := by
  obtain ⟨t, hsteps, hstep, hrest⟩ := h
  induction hsteps generalizing fuel with
  | refl s =>
      cases fuel with
      | zero => rw [run, if_neg (by simpa using hrest)]
      | succ fuel =>
          rw [run]
          rw [step] at hstep
          cases hfresh : s.toToken.dropStale with
          | none => rfl
          | some t =>
              rw [← rest_of_dropStale hfresh] at hrest
              obtain ⟨c, cs, hcs⟩ := List.exists_cons_of_ne_nil hrest
              rw [hfresh] at hstep
              dsimp only [Option.bind_eq_bind, Option.bind_some] at hstep ⊢
              rw [hcs] at hstep ⊢
              dsimp only at hstep ⊢
              rw [hstep]
              rfl
  | head hfirst hlt _ ih =>
      obtain ⟨fuel, rfl⟩ : ∃ k, fuel = k + 1 := ⟨fuel - 1, by omega⟩
      rw [run_of_step hfirst]
      exact ih (by omega) hstep hrest

/-- Behind a token that was taken, in front of a text. -/
structure Took (t t' : Lexer) (n : Nat) (cs : List Char) (read : Token) : Prop where
  facing : t'.Facing n cs
  tokens : t'.tokens = read :: t.tokens
  length : t'.rest.length < t.rest.length

section Tokens

variable {n : Nat} {s t : Lexer} {c : Char} {cs : List Char} {read : Token}

/-- A token that is taken in one step, and what is known of the state behind it. -/
theorem Facing.reaches (h : s.Facing (n + 1) (c :: cs)) (hc : Visible c) (hkept : Kept c) {m : Nat}
    {ds : List Char} (known : Lexer → Prop)
    (htoken : ∀ t : Lexer, t.Inside (n + 1) → t.rest = c :: normalized cs →
      t.keyAllowed = s.keyAllowed →
      ∃ t' : Lexer, token c t = some t' ∧ t.Took t' m ds read ∧ known t') :
    ∃ s', s.Reaches s' m ds [read] ∧ known s' := by
  obtain ⟨gap, hgap, hrest⟩ := h.rest
  rw [normalized_cons hkept] at hrest
  obtain ⟨t, hstep, hinside, hrest', htokens, hallowed, -, -, -⟩ := h.toInside.step_eq hgap hc hrest
  obtain ⟨t', ht', htook, hknown⟩ := htoken t hinside hrest' hallowed
  have hlength := htook.length
  refine ⟨t', ⟨.single (hstep.trans ht') ?_, htook.facing, ?_⟩, hknown⟩
  · rw [hrest'] at hlength
    rw [hrest, List.length_append]
    omega
  · rw [htook.tokens, htokens]
    rfl

/-! ## Brackets and commas -/

/-- The opening brackets and their tokens. -/
inductive Opens : Char → Token → Prop where
  | sequence : Opens '[' .flowSequence
  | mapping : Opens '\x7b' .flowMapping

/-- The closing brackets and their tokens. -/
inductive Closes : Char → Token → Prop where
  | sequence : Closes ']' .flowSequenceEnd
  | mapping : Closes '\x7d' .flowMappingEnd

/-- Behind one character. -/
theorem Took.of_skip {t' : Lexer} (hrest : t.rest = c :: normalized cs) (hinside : t'.Inside n)
    (hskip : t'.rest = t.rest.drop 1) (htokens : t'.tokens = read :: t.tokens) :
    t.Took t' n cs read := by
  have hbehind : t'.rest = normalized cs := by rw [hskip, hrest]; rfl
  refine ⟨.of_rest hinside hbehind, htokens, ?_⟩
  rw [hbehind, hrest, List.length_cons]
  exact Nat.lt_succ_self _

/-- An opening bracket, inside others or in front of all. -/
theorem Inside.token_open (h : t.Inside n) (hc : Opens c read) (hrest : t.rest = c :: normalized cs) :
    ∃ t', token c t = some t' ∧ t.Took t' (n + 1) cs read ∧ t'.keyAllowed = true := by
  obtain ⟨pending, hsave, hloose, -⟩ := h.saveKey_eq
  have htoken : token c t = t.openFlow read := by
    cases hc <;> simp [token, atMark, startMark, endMark, hrest]
  have hopen : token c t = some ⟨t.rest.drop 1, t.position.right 1, read :: t.tokens, t.indents, true,
      none, pending :: t.outer⟩ := by
    rw [htoken, openFlow, hsave]
    rfl
  exact ⟨_, hopen, .of_skip hrest ⟨h.indents, congrArg (· + 1) h.depth, loose_none,
    List.forall_mem_cons.mpr ⟨hloose, h.around⟩⟩ rfl rfl, rfl⟩

/-- **An opening bracket inside others.** -/
theorem Facing.reaches_open (h : s.Facing (n + 1) (c :: cs)) (hc : Opens c read) :
    ∃ s', s.Reaches s' (n + 2) cs [read] ∧ s'.keyAllowed = true := by
  have hvisible : Visible c := by cases hc <;> exact ⟨by decide, by decide, by decide, by decide, by decide⟩
  have hkept : Kept c := by cases hc <;> exact ⟨by decide, by decide, by decide⟩
  exact h.reaches hvisible hkept _ fun t hinside hrest _ => hinside.token_open hc hrest

/-- **A closing bracket.** The place of what it closes comes to light again. -/
theorem Facing.reaches_close (h : s.Facing (n + 1) (c :: cs)) (hc : Closes c read) :
    ∃ s', s.Reaches s' n cs [read] ∧ s'.keyAllowed = false ∧ s'.rest = normalized cs := by
  have hvisible : Visible c := by cases hc <;> exact ⟨by decide, by decide, by decide, by decide, by decide⟩
  have hkept : Kept c := by cases hc <;> exact ⟨by decide, by decide, by decide⟩
  refine h.reaches hvisible hkept _ fun t hinside hrest _ => ?_
  have htoken : token c t = t.closeFlow read := by
    cases hc <;> simp [token, atMark, startMark, endMark, hrest]
  obtain ⟨k, outer, houter⟩ := List.exists_cons_of_length_eq_add_one hinside.depth
  have hclose : token c t = some ⟨t.rest.drop 1, t.position.right 1, read :: t.tokens, t.indents, false,
      k, outer⟩ := by
    rw [htoken, closeFlow, hinside.dropKey_eq]
    dsimp only [Option.bind_eq_bind, Option.bind_some]
    rw [houter]
    rfl
  have hdepth := hinside.depth
  have haround := hinside.around
  rw [houter] at hdepth haround
  obtain ⟨hk, hmore⟩ := List.forall_mem_cons.mp haround
  have hskip : t.rest.drop 1 = normalized cs := by rw [hrest]; rfl
  exact ⟨_, hclose, .of_skip hrest ⟨hinside.indents, Nat.succ.inj hdepth, hk, hmore⟩ rfl rfl, rfl, hskip⟩

/-- **A comma.** -/
theorem Facing.reaches_comma (h : s.Facing (n + 1) (',' :: cs)) :
    ∃ s', s.Reaches s' (n + 1) cs [.flowEntry] ∧ s'.keyAllowed = true := by
  refine h.reaches ⟨by decide, by decide, by decide, by decide, by decide⟩
    ⟨by decide, by decide, by decide⟩ _ fun t hinside hrest _ => ?_
  have htoken : token ',' t = t.flowEntry := by
    simp [token, atMark, startMark, endMark, hrest]
  have hcomma : token ',' t = some ⟨t.rest.drop 1, t.position.right 1, .flowEntry :: t.tokens,
      t.indents, true, none, t.outer⟩ := by
    rw [htoken, flowEntry, hinside.dropKey_eq]
    rfl
  exact ⟨_, hcomma, .of_skip hrest ⟨hinside.indents, hinside.depth, loose_none, hinside.around⟩ rfl
    rfl, rfl⟩

/-! ## Quoted scalars -/

/-- A text between double quotes that is read as another. -/
structure QuotedAs (text read : List Char) : Prop where
  kept : ∀ c ∈ text, Kept c
  take : ∀ (p : Position) (rest : List Char), p.column ≠ 0 →
    takeDouble .text .empty [] (text ++ '"' :: rest) p =
      some ⟨read, rest, p.right (text.length + 1)⟩

theorem kept_quote : Kept '"' := ⟨by decide, by decide, by decide⟩

theorem visible_quote : Visible '"' := ⟨by decide, by decide, by decide, by decide, by decide⟩

/-- A text between quotes, whose place is remembered where a key may begin. -/
theorem Inside.token_quoted (h : t.Inside n) {text read : List Char} (hquoted : QuotedAs text read)
    {rest : List Char} (hrest : t.rest = '"' :: (text ++ '"' :: rest)) : ∃ pending, Loose pending ∧
      (t.keyAllowed = true → pending = some ⟨t.tokens.length, t.position, false⟩) ∧
      token '"' t = some ⟨rest, t.position.right (text.length + 2),
        .scalar .doubleQuoted read :: t.tokens, t.indents, false, pending, t.outer⟩ := by
  obtain ⟨pending, hsave, hloose, hplace⟩ := h.saveKey_eq
  refine ⟨pending, hloose, hplace, ?_⟩
  have htoken : token '"' t = t.item (behind (takeDouble .text .empty [])) (.scalar .doubleQuoted) := by
    simp [token, atMark, startMark, endMark, hrest]
  have hmoved : (t.position.right 1).right (text.length + 1) = t.position.right (text.length + 2) := by
    simp [Position.right, Nat.add_comm, Nat.add_left_comm]
  have htake : behind (takeDouble .text .empty []) t.rest t.position =
      some ⟨read, rest, t.position.right (text.length + 2)⟩ := by
    rw [← hmoved, hrest]
    exact hquoted.take (t.position.right 1) rest (Nat.succ_ne_zero _)
  rw [htoken, item, hsave]
  dsimp only [Option.bind_eq_bind, Option.bind_some]
  rw [htake]
  rfl

theorem normalized_quoted {text read : List Char} (h : QuotedAs text read) (cs : List Char) :
    normalized (text ++ '"' :: cs) = text ++ '"' :: normalized cs := by
  rw [normalized_append h.kept, normalized_cons kept_quote]

/-- **A text between quotes.** -/
theorem Facing.reaches_quoted {text read : List Char} (hquoted : QuotedAs text read)
    (h : s.Facing (n + 1) ('"' :: (text ++ '"' :: cs))) :
    ∃ s', s.Reaches s' (n + 1) cs [.scalar .doubleQuoted read] := by
  obtain ⟨s', hreaches, -⟩ := h.reaches visible_quote kept_quote (fun _ => True)
    fun t hinside hrest _ => by
      rw [normalized_quoted hquoted] at hrest
      obtain ⟨pending, hloose, -, htoken⟩ := hinside.token_quoted hquoted hrest
      refine ⟨_, htoken, ⟨.of_rest ⟨hinside.indents, hinside.depth, hloose, hinside.around⟩ rfl, rfl,
        ?_⟩, trivial⟩
      rw [hrest]
      simp only [List.length_cons, List.length_append]
      omega
  exact ⟨s', hreaches⟩

/-- A text between quotes that cannot be read. -/
theorem Facing.stuck_quoted (h : s.Facing (n + 1) ('"' :: cs))
    (htake : ∀ p : Position, p.column ≠ 0 → takeDouble .text .empty [] (normalized cs) p = none) :
    s.Stuck := by
  obtain ⟨gap, hgap, hrest⟩ := h.rest
  rw [normalized_cons kept_quote] at hrest
  obtain ⟨t, hstep, hinside, hrest', -, -, -, -, -⟩ := h.toInside.step_eq hgap visible_quote hrest
  obtain ⟨pending, hsave, -, -⟩ := hinside.saveKey_eq
  have htoken : token '"' t = t.item (behind (takeDouble .text .empty [])) (.scalar .doubleQuoted) := by
    simp [token, atMark, startMark, endMark, hrest']
  have hnone : behind (takeDouble .text .empty []) t.rest t.position = none := by
    rw [hrest']
    exact htake _ (Nat.succ_ne_zero _)
  obtain ⟨q, hskip, -⟩ := skipBlank_passed hgap visible_quote s.keyAllowed (normalized cs) s.position
  refine ⟨s, .refl s, ?_, ?_⟩
  · rw [hstep, htoken, item, hsave]
    dsimp only [Option.bind_eq_bind, Option.bind_some]
    rw [hnone]
    rfl
  · rw [toToken, h.inFlow_eq, hrest, hskip]
    exact List.cons_ne_nil _ _

/-! ## Names -/

/-- The token of a key, if one is written. -/
def keyTokens (near : Bool) : List Token := if near then [.key] else []

/-- The colon behind a scalar puts the token of a key in front of it, if its place is known still. -/
theorem Inside.token_value (h : t.Inside (n + 1)) (hrest : t.rest = ':' :: normalized cs)
    {scalar : Token} {tokens : List Token} (htokens : t.tokens = scalar :: tokens) {k : PendingKey}
    {near : Bool} (hpending : t.pending = if near then some k else none)
    (hplace : k.place = tokens.length) :
    ∃ t', token ':' t = some t' ∧ t'.Facing (n + 1) cs ∧
      t'.tokens = .value :: scalar :: (keyTokens near ++ tokens) ∧ t'.rest.length < t.rest.length := by
  have htoken : token ':' t = t.value := by
    simp [token, atMark, startMark, endMark, hrest, h.inFlow_eq]
  have hdeeper : ∀ column, t.deepens column = false := fun column => by simp [deepens, h.inFlow_eq]
  have hbehind : t.tokens.length - k.place = 1 := by
    rw [htokens, hplace, List.length_cons]
    omega
  have hvalue : token ':' t = some ⟨t.rest.drop 1, t.position.right 1,
      .value :: scalar :: (keyTokens near ++ tokens), t.indents, false, none, t.outer⟩ := by
    rw [htoken, value, hpending]
    cases near with
    | true =>
        dsimp only
        rw [if_pos rfl]
        dsimp only
        rw [hdeeper, if_neg (by decide), pushAt, hbehind, htokens]
        rfl
    | false =>
        have hroll : t.roll .blockMapping = t := by rw [roll, hdeeper, if_neg (by decide)]
        rw [if_neg (by decide)]
        dsimp only
        rw [h.inFlow_eq, hroll, h.inFlow_eq, if_neg (by simp), hpending, push, htokens]
        rfl
  have hskip : t.rest.drop 1 = normalized cs := by rw [hrest]; rfl
  refine ⟨_, hvalue, .of_rest ⟨h.indents, h.depth, loose_none, h.around⟩ hskip, rfl, ?_⟩
  rw [hskip, hrest, List.length_cons]
  exact Nat.lt_succ_self _

/-- Whether the colon behind a name stands on its line and near enough to its beginning. -/
def isNear (text between : List Char) : Bool :=
  (between.all fun c => c == ' ' || c == '\t') && text.length + between.length + 2 ≤ 1024

theorem isNear_iff {text between : List Char} : isNear text between = true ↔
    (∀ c ∈ between, c = ' ' ∨ c = '\t') ∧ text.length + between.length + 2 ≤ 1024 := by
  simp [isNear]

/-- The tokens of a name and its colon. -/
def nameTokens (text between read : List Char) : List Token :=
  keyTokens (isNear text between) ++ [.scalar .doubleQuoted read, .value]

/-- The place of a name is known at its colon if that is near. -/
theorem refresh_name {text between gap : List Char} {place : Nat} {p q : Position}
    (hsame : (∀ c ∈ between, c = ' ' ∨ c = '\t') → gap = between)
    (hfeed : (∃ c ∈ between, c ≠ ' ' ∧ c ≠ '\t') → '\n' ∈ gap)
    (hright : '\n' ∉ gap → q = (p.right (text.length + 2)).right gap.length)
    (hbelow : '\n' ∈ gap → p.line < q.line) :
    refresh q (some ⟨place, p, false⟩) =
      some (if isNear text between then some ⟨place, p, false⟩ else none) := by
  have hnear : isNear text between = true ↔ ¬ (p.line < q.line ∨ p.column + 1024 < q.column) := by
    by_cases hline : ∀ c ∈ between, c = ' ' ∨ c = '\t'
    · have hgap := hsame hline
      have hposition := hright fun hmem => absurd (hline '\n' (hgap ▸ hmem)) (by decide)
      rw [isNear_iff, hposition, hgap]
      simp only [Position.right]
      exact ⟨fun h => by omega, fun h => ⟨hline, by omega⟩⟩
    · have hdown : p.line < q.line := hbelow (hfeed (by simpa using hline))
      exact ⟨fun h => absurd (isNear_iff.mp h).1 hline, fun h => absurd (.inl hdown) h⟩
  rw [refresh]
  by_cases h : isNear text between = true
  · rw [if_pos h, if_neg (by simpa using hnear.mp h)]
  · rw [if_neg h, if_pos (by simpa using not_not.mp (mt hnear.mpr h)), if_neg (by simp)]

/-- **A name and its colon.** It is a key if the colon is near. -/
theorem Facing.reaches_name {text read between : List Char} (hquoted : QuotedAs text read)
    (hbetween : Spacing between)
    (h : s.Facing (n + 1) ('"' :: (text ++ '"' :: (between ++ ':' :: cs))))
    (hallowed : s.keyAllowed = true) :
    ∃ s', s.Reaches s' (n + 1) cs (nameTokens text between read) := by
  have hcolon : Kept ':' := ⟨by decide, by decide, by decide⟩
  obtain ⟨gap, hgap, hrest⟩ := h.rest
  have hnext : (':' :: cs).head? ≠ some '\n' := by simp
  obtain ⟨gap', hgap', -, hfeed, hnormal⟩ := normalized_spacing hbetween hnext
  -- on one line nothing is read as something else
  have hsame : (∀ c ∈ between, c = ' ' ∨ c = '\t') → gap' = between := by
    intro hline
    have hkept : ∀ c ∈ between, Kept c := by
      intro c hc
      rcases hline c hc with rfl | rfl <;> exact ⟨by decide, by decide, by decide⟩
    exact List.append_cancel_right (hnormal.symm.trans (normalized_append hkept _))
  rw [normalized_cons kept_quote, normalized_quoted hquoted, hnormal, normalized_cons hcolon] at hrest
  -- the name, whose place is remembered
  obtain ⟨t, hstep, hinside, hrest', htokens, hallowed', -, -, -⟩ :=
    h.toInside.step_eq hgap visible_quote hrest
  obtain ⟨pending, hloose, hplace, htoken⟩ := hinside.token_quoted hquoted hrest'
  obtain rfl := hplace (hallowed'.trans hallowed)
  have hinside' : Inside (n + 1) ⟨gap' ++ ':' :: normalized cs, t.position.right (text.length + 2),
      .scalar .doubleQuoted read :: t.tokens, t.indents, false,
      some ⟨t.tokens.length, t.position, false⟩, t.outer⟩ :=
    ⟨hinside.indents, hinside.depth, hloose, hinside.around⟩
  -- the colon, which may be too far for the place to be known still
  obtain ⟨t', hstep', hinside'', hrest'', htokens', -, hfresh, hright, hbelow⟩ :=
    hinside'.step_eq hgap' ⟨by decide, by decide, by decide, by decide, by decide⟩ rfl
  rw [refresh_name hsame hfeed hright hbelow] at hfresh
  obtain ⟨s', hvalue, hfacing, htokens'', hlength⟩ :=
    hinside''.token_value hrest'' htokens' (Option.some.inj hfresh).symm rfl
  have hfirst : (gap' ++ ':' :: normalized cs).length < s.rest.length := by
    rw [hrest]
    simp only [List.length_append, List.length_cons]
    omega
  refine ⟨s', .head (hstep.trans htoken) hfirst (.single (hstep'.trans hvalue) ?_), hfacing, ?_⟩
  · rw [hrest''] at hlength
    simp only [List.length_append, List.length_cons] at hlength ⊢
    omega
  · rw [htokens'', htokens, nameTokens]
    cases isNear text between <;> rfl

/-! ## Words -/

/-- A character of a word or a number. -/
def InWord (c : Char) : Prop := c.isAlphanum = true ∨ c = '-' ∨ c = '+' ∨ c = '.'

instance : DecidablePred InWord := fun c =>
  inferInstanceAs (Decidable (c.isAlphanum = true ∨ c = '-' ∨ c = '+' ∨ c = '.'))

/-- A character that ends an item inside brackets. -/
def EndsItem (c : Char) : Prop := c = ',' ∨ c = ']' ∨ c = '\x7d'

/-- A word, or a number with or without a sign. -/
structure PlainWord (w : List Char) : Prop where
  chars : ∀ c ∈ w, InWord c
  start : ∃ c cs, w = c :: cs ∧
    (c.isAlphanum = true ∨ c = '-' ∧ ∃ d ds, cs = d :: ds ∧ d.isAlphanum = true)

theorem InWord.ne {c d : Char} (h : InWord c) (hd : ¬ InWord d) : c ≠ d := by
  rintro rfl
  exact hd h

theorem InWord.bounds {c : Char} (h : InWord c) : 0x2B ≤ c.toNat ∧ c.toNat ≤ 0x7A := by
  rcases h with h | rfl | rfl | rfl
  · rcases Bool.or_eq_true_iff.mp h with h | h
    · have hletter := StartsToken.bounds (.inr h)
      omega
    · have hdigit := digit_bounds h
      omega
  all_goals decide

theorem InWord.kept {c : Char} (h : InWord c) : Kept c where
  feed := h.ne (by decide)
  return_ := h.ne (by decide)
  next := by
    have hbounds := h.bounds
    omega

theorem InWord.isSpacing_eq {c : Char} (h : InWord c) : isSpacing c = false := by
  have hspace : c ≠ ' ' := h.ne (by decide)
  have htab : c ≠ '\t' := h.ne (by decide)
  simp [isSpacing, hspace, htab]

theorem InWord.isBreak_eq {c : Char} (h : InWord c) : isBreak c = false := by
  have hbounds := h.bounds
  simp only [isBreak, Bool.or_eq_false_iff, beq_eq_false_iff_ne]
  exact ⟨⟨h.kept.feed, by omega⟩, by omega⟩

theorem InWord.visible {c : Char} (h : InWord c) : Visible c where
  isBreak := h.isBreak_eq
  space := h.ne (by decide)
  tab := h.ne (by decide)
  comment := h.ne (by decide)
  orderMark := h.ne (by decide)

/-- The characters of a word are taken one after another. -/
theorem takePlain_word {w : List Char} (h : ∀ c ∈ w, InWord c) (done rest : List Char)
    (p : Position) : takePlain true 0 .empty done (w ++ rest) p =
      takePlain true 0 .empty (w.reverse ++ done) rest (p.right w.length) := by
  induction w generalizing done p with
  | nil => rfl
  | cons c w ih =>
      have hc := h c List.mem_cons_self
      have hcolon : (c == ':') = false :=
        beq_eq_false_iff_ne.mpr (hc.ne (by decide))
      have hflow : isFlowIndicator c = false := by
        have hne : ∀ d, ¬ InWord d → (c == d) = false := fun d hd =>
          beq_eq_false_iff_ne.mpr (hc.ne hd)
        rw [isFlowIndicator, hne ',' (by decide), hne '[' (by decide),
          hne ']' (by decide), hne '\x7b' (by decide),
          hne '\x7d' (by decide)]
        rfl
      have hmoved : (p.right 1).right w.length = p.right (c :: w).length := by
        simp [Position.right, Nat.add_comm, Nat.add_left_comm]
      rw [List.cons_append, takePlain, if_neg (by simp [hc.isBreak_eq]),
        if_neg (by simp [hc.isSpacing_eq]), if_neg (by simp [endsPlainLine, Gap.empty]),
        if_neg (by simp [hcolon]), if_neg (by simp [hcolon, hflow])]
      refine (ih (fun d hd => h d (List.mem_cons_of_mem c hd)) (c :: done) (p.right 1)).trans ?_
      rw [hmoved, List.reverse_cons, List.append_assoc]
      rfl

/-- White space behind a word is taken with it, up to what ends the item. -/
theorem takePlain_gap {gap : List Char} (hgap : Passed gap) {e : Char} (he : EndsItem e) (g : Gap)
    (done cs : List Char) (p : Position) : ∃ (broken : Bool) (q : Position),
      takePlain true 0 g done (gap ++ e :: cs) p = some ⟨(done.reverse, broken), e :: cs, q⟩ := by
  induction gap generalizing g p with
  | nil =>
      obtain ⟨hbreak, hspacing, hcolon, hflow⟩ : isBreak e = false ∧ isSpacing e = false ∧
          (e == ':') = false ∧ isFlowIndicator e = true := by
        rcases he with rfl | rfl | rfl <;> decide
      refine ⟨g.broken, p, ?_⟩
      rw [List.nil_append, takePlain, if_neg (by simp [hbreak]), if_neg (by simp [hspacing])]
      split
      · rfl
      · rw [if_neg (by simp [hcolon]), if_pos (by simp [hflow])]
  | cons c gap ih =>
      have hmore : Passed gap := fun d hd => hgap d (List.mem_cons_of_mem c hd)
      rw [List.cons_append, takePlain]
      rcases hgap c List.mem_cons_self with rfl | rfl | rfl
      · rw [if_neg (by decide), if_pos (by decide), if_neg (by simp)]
        exact ih hmore _ _
      · rw [if_neg (by decide), if_pos (by decide), if_neg (by simp)]
        exact ih hmore _ _
      · rw [if_pos (by decide)]
        exact ih hmore _ _

/-- A word begins with no dot, and a minus sign in front of it is followed by no other one. -/
theorem PlainWord.first {ds : List Char} (hw : PlainWord (c :: ds)) : (c == '.') = false ∧
    ((c == '-') = false ∨ ∃ e es, ds = e :: es ∧ c = '-' ∧ InWord e ∧ e ≠ '-') := by
  obtain ⟨d, more, heq, hd⟩ := hw.start
  obtain ⟨rfl, rfl⟩ := List.cons_eq_cons.mp heq
  have hnot : ∀ {c d : Char}, c.isAlphanum = true → d.isAlphanum = false → c ≠ d := by
    rintro c d hc hd rfl
    exact Bool.noConfusion (hc.symm.trans hd)
  rcases hd with hd | ⟨rfl, e, es, rfl, he⟩
  · exact ⟨beq_eq_false_iff_ne.mpr (hnot hd (by decide)),
      .inl (beq_eq_false_iff_ne.mpr (hnot hd (by decide)))⟩
  · exact ⟨by decide, .inr ⟨e, es, rfl, rfl, .inl he, hnot he (by decide)⟩⟩

theorem startsPlain_word {ds : List Char} (hw : PlainWord (c :: ds)) (rest : List Char) :
    Lexer.startsPlain true (c :: (ds ++ rest)) = true := by
  have hc : InWord c := hw.chars c List.mem_cons_self
  have hne : ∀ d, ¬ InWord d → (c == d) = false := fun d hd => beq_eq_false_iff_ne.mpr (hc.ne hd)
  rw [Lexer.startsPlain]
  rcases hw.first.2 with hno | ⟨e, es, rfl, rfl, he, -⟩
  · have hnone : ("#,[]\x7b\x7d&*!|>'\"%@\x60".toList.contains c) = false := by
      rw [List.contains_eq_mem, decide_eq_false_iff_not]
      intro hmem
      have hall : ("#,[]\x7b\x7d&*!|>'\"%@\x60".toList.all fun d => decide (¬ InWord d)) = true := by
        decide
      exact of_decide_eq_true (List.all_eq_true.mp hall c hmem) hc
    rw [if_neg (by simp [hno]), if_neg (by simp [hne '?' (by decide), hne ':' (by decide)]),
      hc.isSpacing_eq, hnone]
    rfl
  · simp [he.isSpacing_eq]

/-- What begins like a word is a plain scalar. -/
theorem token_word {w rest : List Char} (hw : PlainWord w) (hflow : t.inFlow = true)
    (hrest : t.rest = c :: cs) (hstart : c :: cs = w ++ rest) : token c t = t.plain := by
  obtain ⟨d, ds, rfl, -⟩ := hw.start
  obtain ⟨rfl, rfl⟩ := List.cons_eq_cons.mp (hstart.trans (List.cons_append ..))
  have hc : InWord c := hw.chars c List.mem_cons_self
  have hne : ∀ d, ¬ InWord d → (c == d) = false := fun d hd => beq_eq_false_iff_ne.mpr (hc.ne hd)
  obtain ⟨hdot, hminus⟩ := hw.first
  have hstartMark : atMark startMark t.position t.rest = false := by
    rw [hrest]
    rcases hminus with hno | ⟨e, es, rfl, rfl, -, he⟩
    · simp [atMark, startMark, Ne.symm (beq_eq_false_iff_ne.mp hno)]
    · simp [atMark, startMark, he.symm]
  have hendMark : atMark endMark t.position t.rest = false := by
    rw [hrest]
    simp [atMark, endMark, Ne.symm (beq_eq_false_iff_ne.mp hdot)]
  have hnext : t.rest.drop 1 = ds ++ rest := by rw [hrest]; rfl
  have hdash : (c == '-' && endsWord (ds ++ rest)) = false := by
    rcases hminus with hno | ⟨e, es, rfl, -, he, -⟩
    · rw [hno]
      rfl
    · simp [endsWord, he.isSpacing_eq, he.isBreak_eq]
  have hplain : Lexer.startsPlain t.inFlow t.rest = true := by
    rw [hflow, hrest, startsPlain_word hw]
  rw [token, hstartMark, hendMark, hnext, hplain, hflow, hdash, hne '%' (by decide),
    hne '[' (by decide), hne '\x7b' (by decide), hne ']' (by decide), hne '\x7d' (by decide),
    hne ',' (by decide), hne '?' (by decide), hne ':' (by decide), hne '*' (by decide),
    hne '&' (by decide), hne '!' (by decide), hne '|' (by decide), hne '>' (by decide),
    hne '\'' (by decide), hne '"' (by decide), Bool.and_false]
  rfl

/-- **A word**, up to what ends the item. -/
theorem Facing.reaches_word {w space : List Char} (hw : PlainWord w) (hspace : Spacing space)
    {e : Char} (he : EndsItem e) (h : s.Facing (n + 1) (w ++ (space ++ e :: cs))) :
    ∃ s', s.Reaches s' (n + 1) (e :: cs) [.scalar .plain w] := by
  obtain ⟨c, ds, hstart, -⟩ := hw.start
  have hc : InWord c := hw.chars c (by rw [hstart]; exact List.mem_cons_self)
  have hfeed : (e :: cs).head? ≠ some '\n' := by
    rcases he with rfl | rfl | rfl <;> simp
  have hend : Kept e := by
    rcases he with rfl | rfl | rfl <;> exact ⟨by decide, by decide, by decide⟩
  obtain ⟨gap, hgap, -, -, hnormal⟩ := normalized_spacing hspace hfeed
  have hwhole : c :: normalized (ds ++ (space ++ e :: cs)) = w ++ (gap ++ e :: normalized cs) := by
    have hkept : ∀ d ∈ ds, Kept d := fun d hd =>
      (hw.chars d (by rw [hstart]; exact List.mem_cons_of_mem c hd)).kept
    rw [normalized_append hkept, hnormal, normalized_cons hend, hstart]
    rfl
  rw [hstart, List.cons_append] at h
  have hread : ∃ s', s.Reaches s' (n + 1) (e :: cs) [.scalar .plain w] ∧ True := by
    refine h.reaches hc.visible hc.kept _ fun t hinside hrest _ => ?_
    obtain ⟨pending, hsave, hloose, -⟩ := hinside.saveKey_eq
    obtain ⟨broken, q, htake⟩ := takePlain_gap hgap he .empty w.reverse (normalized cs)
      (t.position.right w.length)
    have hplain : takePlain true 0 .empty [] t.rest t.position =
        some ⟨(w, broken), e :: normalized cs, q⟩ := by
      rw [hrest, hwhole, takePlain_word hw.chars, List.append_nil, htake, List.reverse_reverse]
    have htoken : token c t = some ⟨e :: normalized cs, q, .scalar .plain w :: t.tokens, t.indents,
        broken, pending, t.outer⟩ := by
      have hflow : inFlow { t with pending } = true := hinside.inFlow_eq
      rw [token_word hw hinside.inFlow_eq hrest hwhole, plain, hsave]
      dsimp only [Option.bind_eq_bind, Option.bind_some]
      rw [hflow, hinside.indents]
      dsimp only
      rw [hplain]
      rfl
    refine ⟨_, htoken, ⟨.of_rest ⟨hinside.indents, hinside.depth, hloose, hinside.around⟩ ?_, rfl, ?_⟩,
      trivial⟩
    · exact (normalized_cons hend cs).symm
    · rw [hrest, hwhole, hstart]
      simp only [List.length_cons, List.length_append]
      omega
  obtain ⟨s', hreaches, -⟩ := hread
  exact ⟨s', hreaches⟩

/-! ## The outermost brackets -/

/-- In front of all brackets and behind them, tabs may only stand on a line where no key can begin. -/
theorem skipBlank_below {gap : List Char} (h : Passed gap) (htab : '\t' ∉ gap) (allowed : Bool)
    (rest : List Char) (p : Position) : ∃ (q : Position) (allowed' : Bool),
      skipBlank false false allowed (gap ++ rest) p = skipBlank false false allowed' rest q ∧
        (allowed = true ∨ '\n' ∈ gap → allowed' = true) := by
  induction gap generalizing allowed p with
  | nil => exact ⟨p, allowed, rfl, fun h => h.resolve_right List.not_mem_nil⟩
  | cons c gap ih =>
      rw [List.mem_cons, not_or] at htab
      have hmore : Passed gap := fun d hd => h d (List.mem_cons_of_mem c hd)
      rcases h c List.mem_cons_self with rfl | rfl | rfl
      · obtain ⟨q, allowed', hskip, hstill⟩ := ih hmore htab.2 allowed (p.right 1)
        rw [List.cons_append, skipBlank_space]
        exact ⟨q, allowed', hskip, fun h => hstill (h.imp_right (by simp))⟩
      · exact absurd rfl htab.1
      · obtain ⟨q, allowed', hskip, hstill⟩ := ih hmore htab.2 (allowed || true) (p.past '\n')
        refine ⟨q, allowed', ?_, fun _ => hstill (.inl (Bool.or_true allowed))⟩
        rw [List.cons_append, skipBlank, if_pos (by decide)]
        exact hskip

theorem skipBlank_tab (cs : List Char) (p : Position) :
    skipBlank false false true ('\t' :: cs) p = ('\t' :: cs, p, true) := by
  have hmark : ('\t' == orderMark) = false := by decide
  rw [skipBlank, if_neg (by decide), if_neg (by decide), if_neg (by simp [hmark]),
    if_neg (by decide), if_neg (by decide)]

theorem skipBlank_line {line : List Char} (h : ∀ c ∈ line, c = ' ' ∨ c = '\t') (rest : List Char)
    (p : Position) : skipBlank false false false (line ++ rest) p =
      skipBlank false false false rest (p.right line.length) := by
  induction line generalizing p with
  | nil => rfl
  | cons c line ih =>
      have hmoved : (p.right 1).right line.length = p.right (c :: line).length := by
        simp [Position.right, Nat.add_comm, Nat.add_left_comm]
      have hfirst : skipBlank false false false (c :: (line ++ rest)) p =
          skipBlank false false false (line ++ rest) (p.right 1) := by
        rcases h c List.mem_cons_self with rfl | rfl
        · exact skipBlank_space false false _ p
        · have hmark : ('\t' == orderMark) = false := by decide
          rw [skipBlank, if_neg (by decide), if_neg (by decide), if_neg (by simp [hmark]),
            if_pos (by decide)]
      rw [List.cons_append, hfirst, ih fun d hd => h d (List.mem_cons_of_mem c hd), hmoved]

/-- **The first bracket of a stream.** -/
theorem steps_first {space : List Char} (hspace : Spacing space) (htab : '\t' ∉ space)
    (hc : Opens c read) (cs : List Char) : ∃ s', Steps (.start (normalized (space ++ c :: cs))) s' ∧
      s'.Facing 1 cs ∧ s'.tokens = [read] ∧ s'.keyAllowed = true := by
  have hkept : Kept c := by cases hc <;> exact ⟨by decide, by decide, by decide⟩
  have hvisible : Visible c := by
    cases hc <;> exact ⟨by decide, by decide, by decide, by decide, by decide⟩
  have hfeed : (c :: cs).head? ≠ some '\n' := fun heq => hkept.feed (Option.some.inj heq)
  obtain ⟨gap, hgap, hno, -, hnormal⟩ := normalized_spacing hspace hfeed
  rw [normalized_cons hkept] at hnormal
  obtain ⟨q, allowed, hskip, hallowed⟩ :=
    skipBlank_below hgap (hno htab) true (c :: normalized cs) ⟨0, 0⟩
  obtain rfl := hallowed (.inl rfl)
  rw [skipBlank_visible hvisible] at hskip
  have hinside : Inside 0 ⟨c :: normalized cs, q, [], [], true, none, []⟩ :=
    ⟨rfl, rfl, loose_none, fun _ hk => absurd hk List.not_mem_nil⟩
  obtain ⟨s', htoken, htook, hallowed'⟩ := hinside.token_open hc rfl
  have hstep : step (.start (normalized (space ++ c :: cs))) = some s' := by
    have hnext : toToken (.start (normalized (space ++ c :: cs))) =
        ⟨c :: normalized cs, q, [], [], true, none, []⟩ := by
      rw [hnormal]
      show toToken ⟨gap ++ c :: normalized cs, ⟨0, 0⟩, [], [], true, none, []⟩ = _
      have hflow : inFlow ⟨gap ++ c :: normalized cs, ⟨0, 0⟩, [], [], true, none, []⟩ = false := rfl
      rw [toToken, hflow]
      dsimp only
      rw [hskip]
    rw [step, hnext, dropStale_of_none rfl rfl]
    dsimp only [Option.bind_eq_bind, Option.bind_some]
    rw [unroll_eq rfl]
    exact htoken
  have hlength := htook.length
  refine ⟨s', .single hstep ?_, htook.facing, htook.tokens, hallowed'⟩
  rw [hnormal]
  simp only [Lexer.start, List.length_append, List.length_cons] at hlength ⊢
  omega

/-- **A tab is no token** outside all brackets where a key may begin. -/
theorem Inside.stuck_tab (h : s.Inside 0) (q : Position) (cs : List Char)
    (hnext : s.toToken = { s with rest := '\t' :: cs, position := q, keyAllowed := true }) :
    s.Stuck := by
  have hinside : Inside 0 { s with rest := '\t' :: cs, position := q, keyAllowed := true } :=
    ⟨h.indents, h.depth, h.pending, h.around⟩
  obtain ⟨pending, outer, hfresh, -, hinside'⟩ := hinside.dropStale_eq
  have htoken : ∀ t : Lexer, t.rest = '\t' :: cs → token '\t' t = none := by
    intro t hrest
    simp [token, atMark, startMark, endMark, hrest, startsPlain, isSpacing]
  refine ⟨s, .refl s, ?_, by rw [hnext]; exact List.cons_ne_nil _ _⟩
  rw [step, hnext, hfresh]
  dsimp only [Option.bind_eq_bind, Option.bind_some]
  rw [hinside'.unroll_eq]
  exact htoken _ rfl

/-- **A tab in front of the first bracket.** -/
theorem stuck_first {space : List Char} (hspace : Spacing space) (htab : '\t' ∉ space)
    (cs : List Char) : Stuck (.start (normalized (space ++ '\t' :: cs))) := by
  have hnext : ('\t' :: cs).head? ≠ some '\n' := by simp
  obtain ⟨gap, hgap, hno, -, hnormal⟩ := normalized_spacing hspace hnext
  rw [normalized_cons ⟨by decide, by decide, by decide⟩] at hnormal
  obtain ⟨q, allowed, hskip, hallowed⟩ :=
    skipBlank_below hgap (hno htab) true ('\t' :: normalized cs) ⟨0, 0⟩
  obtain rfl := hallowed (.inl rfl)
  rw [skipBlank_tab] at hskip
  have hinside : Inside 0 (.start (normalized (space ++ '\t' :: cs))) :=
    ⟨rfl, rfl, loose_none, fun _ hk => absurd hk List.not_mem_nil⟩
  refine hinside.stuck_tab q (normalized cs) ?_
  rw [hnormal]
  show toToken ⟨gap ++ '\t' :: normalized cs, ⟨0, 0⟩, [], [], true, none, []⟩ = _
  have hflow : inFlow ⟨gap ++ '\t' :: normalized cs, ⟨0, 0⟩, [], [], true, none, []⟩ = false := rfl
  rw [toToken, hflow]
  dsimp only
  rw [hskip]
  rfl

/-- At the end of the stream, outside all brackets, nothing is open. -/
theorem Inside.finish_eq (h : s.Inside 0) :
    ∃ t, s.finish = some t ∧ t.tokens = .streamEnd :: s.tokens := by
  refine ⟨⟨s.rest, s.position, .streamEnd :: s.tokens, s.indents, false, none, s.outer⟩, ?_, rfl⟩
  rw [finish, closeAll, h.unroll_eq, h.dropKey_eq]
  rfl

/-- **Behind the last bracket** there is only white space. -/
theorem Inside.finish_last (h : s.Inside 0) (hallowed : s.keyAllowed = false) {line below : List Char}
    (hline : ∀ c ∈ line, c = ' ' ∨ c = '\t') (hbelow : Spacing below) (htab : '\t' ∉ below)
    (hrest : s.rest = normalized (line ++ below)) : ∃ t u : Lexer, s.toToken.rest = [] ∧
      s.toToken.dropStale = some t ∧ t.finish = some u ∧ u.tokens = .streamEnd :: s.tokens := by
  have hkept : ∀ c ∈ line, Kept c := by
    intro c hc
    rcases hline c hc with rfl | rfl <;> exact ⟨by decide, by decide, by decide⟩
  have hfeed : ([] : List Char).head? ≠ some '\n' := by simp
  obtain ⟨gap, hgap, hno, -, hnormal⟩ := normalized_spacing hbelow hfeed
  rw [List.append_nil] at hnormal
  obtain ⟨q, allowed, hskip, -⟩ := skipBlank_below hgap (hno htab) false (normalized [])
    (s.position.right line.length)
  have hflow : s.inFlow = false := by
    rw [inFlow, List.eq_nil_of_length_eq_zero h.depth]
    rfl
  have hnext : s.toToken = { s with rest := [], position := q, keyAllowed := allowed } := by
    rw [toToken, hflow, hallowed, hrest, normalized_append hkept, hnormal, skipBlank_line hline, hskip]
    rfl
  have hinside : Inside 0 { s with rest := [], position := q, keyAllowed := allowed } :=
    ⟨h.indents, h.depth, h.pending, h.around⟩
  obtain ⟨pending, outer, hfresh, -, hinside'⟩ := hinside.dropStale_eq
  obtain ⟨u, hu, htokens⟩ := hinside'.finish_eq
  rw [hnext]
  exact ⟨_, u, rfl, hfresh, hu, htokens⟩

/-- **A tab below the line of the last bracket.** -/
theorem Inside.stuck_last (h : s.Inside 0) (hallowed : s.keyAllowed = false) {line below : List Char}
    (hline : ∀ c ∈ line, c = ' ' ∨ c = '\t') (hbelow : Spacing below) (htab : '\t' ∉ below)
    (hbreak : ∃ c ∈ below, c ≠ ' ' ∧ c ≠ '\t')
    (hrest : s.rest = normalized (line ++ (below ++ '\t' :: cs))) : s.Stuck := by
  have hkept : ∀ c ∈ line, Kept c := by
    intro c hc
    rcases hline c hc with rfl | rfl <;> exact ⟨by decide, by decide, by decide⟩
  have hnext : ('\t' :: cs).head? ≠ some '\n' := by simp
  obtain ⟨gap, hgap, hno, hfeed, hnormal⟩ := normalized_spacing hbelow hnext
  rw [normalized_cons ⟨by decide, by decide, by decide⟩] at hnormal
  obtain ⟨q, allowed, hskip, hallowed'⟩ := skipBlank_below hgap (hno htab) false
    ('\t' :: normalized cs) (s.position.right line.length)
  obtain rfl := hallowed' (.inr (hfeed hbreak))
  rw [skipBlank_tab] at hskip
  have hflow : s.inFlow = false := by
    rw [inFlow, List.eq_nil_of_length_eq_zero h.depth]
    rfl
  refine h.stuck_tab q (normalized cs) ?_
  rw [toToken, hflow, hallowed, hrest, normalized_append hkept, hnormal, skipBlank_line hline, hskip]

end Tokens

end Lexer

end BomAssembly.Yaml
