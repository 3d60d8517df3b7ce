import BomAssembly.Proofs.Yaml.Leaves

/-!
# Documents that were written, token by token

A document of mappings whose keys are words, of sequences of such mappings, and of texts and numbers
is read as the tokens that it was written for (`Data.settled`). The proof follows the text: what a
value is read as is settled by what its last scalar is read as (`Settled`), because everything in
front of that is followed by another entry or item, which stands no deeper. So the text is taken apart
once, whether the end of its last line is there (`Settled.reads_line`) or not (`Settled.reads_all`).
-/

namespace BomAssembly.Yaml

open Lexer (Reads Stands Steps OpensMapping openTo closedTo)

/-! ## The documents at hand -/

mutual

/-- A document of mappings whose keys are words, sequences of such mappings, texts and numbers of
64 bits. -/
def Data.Regular : Data → Prop
  | .str _ => True
  | .int i => 0 ≤ i ∧ i < Nat.pow 2 64
  | .seq ds => RegularItems ds
  | .map es => es ≠ [] ∧ RegularEntries es
  | _ => False

/-- Items that are mappings. -/
def RegularItems : List Data → Prop
  | [] => True
  | .map es :: ds => (es ≠ [] ∧ RegularEntries es) ∧ RegularItems ds
  | _ :: _ => False

/-- Entries whose keys are words, no two of them the same. -/
def RegularEntries : List (String × Data) → Prop
  | [] => True
  | (k, d) :: es => KeyWord k ∧ k ∉ es.map Prod.fst ∧ d.Regular ∧ RegularEntries es

end

mutual

/-- The tokens of a value. -/
def Data.tokens : Data → List Token
  | .seq (d :: ds) => itemTokens (d :: ds)
  | .map es => .blockMapping :: entryTokens es ++ [.blockEnd]
  | d => d.leafTokens

/-- The tokens of items. -/
def itemTokens : List Data → List Token
  | [] => []
  | d :: ds => .blockEntry :: d.tokens ++ itemTokens ds

/-- The tokens of entries. -/
def entryTokens : List (String × Data) → List Token
  | [] => []
  | (k, d) :: es => .key :: .scalar .plain k.toList :: .value :: d.tokens ++ entryTokens es

end

mutual

/-- What is written last of a value. -/
def Data.last : Data → Data
  | .seq ds => (lastOfItems? ds).getD (.seq [])
  | .map es => (lastOfEntries? es).getD (.map [])
  | d => d

/-- What is written last of items. -/
def lastOfItems? : List Data → Option Data
  | [] => none
  | d :: ds => some ((lastOfItems? ds).getD d.last)

/-- What is written last of entries. -/
def lastOfEntries? : List (String × Data) → Option Data
  | [] => none
  | (_, d) :: es => some ((lastOfEntries? es).getD d.last)

end

/-- What is written of a value behind its key. -/
def valueText (n : Nat) : Data → List Char
  | .seq (d :: ds) => '\n' :: itemLines n (d :: ds)
  | .map (e :: es) => '\n' :: entryLines (n + 2) (e :: es)
  | d => ' ' :: endLine (Data.inline n d)

theorem entryLines_cons {k : String} (hk : KeyWord k) (n : Nat) (d : Data)
    (es : List (String × Data)) :
    entryLines n ((k, d) :: es) =
      pad n ++ (k.toList ++ ':' :: (valueText n d ++ entryLines n es)) := by
  have hkey : scalarText true (n + 2) k = k.toList := by
    rw [scalarText, hk.style]
  rcases d with _ | _ | _ | _ | (_ | ⟨d, ds⟩) | (_ | ⟨e, es⟩)
  all_goals
    rw [entryLines, if_pos hk.short, hkey, List.append_assoc, List.append_assoc, List.cons_append]
    · rfl
    all_goals simp

theorem itemLines_cons (n : Nat) (e : String × Data) (es : List (String × Data)) (ds : List Data) :
    itemLines n (.map (e :: es) :: ds) =
      pad n ++ ('-' :: ' ' :: ((entryLines (n + 2) (e :: es)).drop (n + 2) ++ itemLines n ds)) := by
  rw [itemLines, List.append_assoc]
  rfl

/-! ## What values, entries and items are read as -/

/-- In the collections that are open at a column these tokens were read, up to what is next. -/
structure Lexer.Has (s : Lexer) (n : Nat) (tokens : List Token) (indents : List Nat) (m : Nat)
    (R : List Char) : Prop where
  tokens : closedTo n s.indents s.tokens = tokens
  indents : openTo n s.indents = indents
  stands : s.Stands m R

/-- Behind the key of a mapping at a column a text is read as a value. -/
structure ReadsValue (n : Nat) (read : List Token) (text : List Char) (m : Nat) (R : List Char) :
    Prop where
  word : endsWord text = true
  steps : ∀ (p : Position) (tokens : List Token) (indents : List Nat), n ≤ p.column →
    ∃ s, Steps ⟨text, p, tokens, n :: indents, false, none, []⟩ s ∧
      s.Has n (read.reverse ++ tokens) (n :: indents) m R

/-- At a column a text is read as entries of a mapping there. -/
structure ReadsEntries (n : Nat) (read : List Token) (text : List Char) (m : Nat) (R : List Char) :
    Prop where
  start : ∃ c cs, text = c :: cs ∧ StartsToken c
  steps : ∀ (s : Lexer) (tokens : List Token) (indents : List Nat), s.Stands n text →
    OpensMapping n (openTo n s.indents) (closedTo n s.indents s.tokens) (n :: indents) tokens →
    ∃ s', Steps s s' ∧ s'.Has n (read.reverse ++ tokens) (n :: indents) m R

/-- At the column of a mapping a text is read as items of a sequence in it. -/
structure ReadsItems (n : Nat) (read : List Token) (text : List Char) (m : Nat) (R : List Char) :
    Prop where
  start : ∃ c cs, text = c :: cs ∧ StartsToken c
  steps : ∀ (s : Lexer) (tokens : List Token) (indents : List Nat),
    s.Has n tokens (n :: indents) n text →
    ∃ s', Steps s s' ∧ s'.Has n (read.reverse ++ tokens) (n :: indents) m R

theorem Lexer.Has.of_eq {s : Lexer} {n m : Nat} {tokens : List Token} {indents : List Nat}
    {R : List Char} (htokens : s.tokens = tokens) (hindents : s.indents = n :: indents)
    (hstands : s.Stands m R) : s.Has n tokens (n :: indents) m R := by
  have hle : ∀ i ∈ s.indents.head?, i ≤ n := by
    intro i hi
    rw [hindents] at hi
    exact Nat.le_of_eq (Option.some.inj hi).symm
  obtain ⟨hopen, hclosed⟩ := Lexer.openTo_of_le hle s.tokens
  exact ⟨hclosed.trans htokens, hopen.trans hindents, hstands⟩

/-- What was read of a mapping is closed where something stands less deep. -/
theorem Lexer.Has.close {s : Lexer} {n k m : Nat} {tokens : List Token} {indents : List Nat}
    {R : List Char} (h : s.Has k tokens (k :: n :: indents) m R) (hlt : n < k) :
    s.Has n (.blockEnd :: tokens) (n :: indents) m R := by
  have hle : n ≤ k := Nat.le_of_lt hlt
  refine ⟨?_, ?_, h.stands⟩
  · rw [← Lexer.closedTo_closedTo hle, h.indents, h.tokens]
    simp [closedTo, hlt]
  · rw [← Lexer.openTo_openTo hle, h.indents]
    simp [openTo, hlt]

section Steps

variable {n m : Nat} {read read' : List Token} {text text' R : List Char}

theorem ReadsValue.of_reads (h : Reads n text read m R) : ReadsValue n read (' ' :: text) m R := by
  refine ⟨rfl, fun p tokens indents hp => ?_⟩
  obtain ⟨s, hsteps, htokens, hindents, hstands⟩ := h p tokens indents hp
  exact ⟨s, hsteps, .of_eq htokens hindents hstands⟩

/-- **An entry** is a key, a colon and a value. -/
theorem ReadsValue.entry {k : String} (hk : KeyWord k) (h : ReadsValue n read text m R) :
    ReadsEntries n (.key :: .scalar .plain k.toList :: .value :: read) (k.toList ++ ':' :: text) m
      R := by
  obtain ⟨c, cs, hcs, hc⟩ := hk.startsToken
  refine ⟨⟨c, cs ++ ':' :: text, by rw [hcs]; rfl, hc⟩, fun s tokens indents hstands hopen => ?_⟩
  obtain ⟨p, hp, hkey⟩ := hstands.steps_key hk h.word hopen
  obtain ⟨s', hvalue, hhas⟩ := h.steps p _ indents hp
  refine ⟨s', hkey.trans hvalue, ?_⟩
  simpa using hhas

/-- More entries stand below, at the same column. -/
theorem ReadsEntries.append (h : ReadsEntries n read text n text')
    (h' : ReadsEntries n read' text' m R) : ReadsEntries n (read ++ read') text m R := by
  refine ⟨h.start, fun s tokens indents hstands hopen => ?_⟩
  obtain ⟨s', hsteps, hhas⟩ := h.steps s tokens indents hstands hopen
  have hagain : OpensMapping n (openTo n s'.indents) (closedTo n s'.indents s'.tokens) (n :: indents)
      (read.reverse ++ tokens) := by
    rw [hhas.indents, hhas.tokens]
    exact .again
  obtain ⟨s'', hsteps', hhas'⟩ := h'.steps s' _ indents hhas.stands hagain
  refine ⟨s'', hsteps.trans hsteps', ?_⟩
  simpa using hhas'

/-- A mapping that stands deeper than what is around. -/
theorem ReadsEntries.mapping {k : Nat} (h : ReadsEntries k read text m R) (hlt : n < k) {s : Lexer}
    {indents : List Nat} (hindents : s.indents = n :: indents) (hstands : s.Stands k text) :
    ∃ s', Steps s s' ∧ s'.Has n ((.blockMapping :: read ++ [.blockEnd] : List Token).reverse ++ s.tokens)
      (n :: indents) m R := by
  -- all that is open stands less deep, so that nothing is closed and a mapping is opened
  have hle : ∀ i ∈ s.indents.head?, i < k := by
    intro i hi
    rw [hindents] at hi
    rw [← Option.some.inj hi]
    exact hlt
  obtain ⟨hopen, hclosed⟩ := Lexer.openTo_of_le (fun i hi => Nat.le_of_lt (hle i hi)) s.tokens
  have hfresh : OpensMapping k (openTo k s.indents) (closedTo k s.indents s.tokens)
      (k :: n :: indents) (.blockMapping :: s.tokens) := by
    rw [hopen, hclosed, hindents]
    rw [hindents] at hle
    exact .fresh hle
  obtain ⟨s', hsteps, hhas⟩ := h.steps s _ _ hstands hfresh
  refine ⟨s', hsteps, ?_⟩
  simpa using hhas.close hlt

/-- **An item** is a dash and a mapping. -/
theorem ReadsEntries.item (h : ReadsEntries (n + 2) read text m R) :
    ReadsItems n (.blockEntry :: (.blockMapping :: read ++ [.blockEnd])) ('-' :: ' ' :: text) m R := by
  refine ⟨⟨'-', _, rfl, .inl rfl⟩, fun s tokens indents hhas => ?_⟩
  obtain ⟨c, cs, rfl, hc⟩ := h.start
  obtain ⟨p, hp, hdash⟩ := hhas.stands.steps_dash hhas.indents
  have hstands := Lexer.stands_space hc.visible cs p (.blockEntry :: closedTo n s.indents s.tokens)
    (n :: indents)
  rw [hp] at hstands
  obtain ⟨s', hsteps, hhas'⟩ := h.mapping (by omega) rfl hstands
  refine ⟨s', hdash.trans hsteps, ?_⟩
  rw [hhas.tokens] at hhas'
  simpa using hhas'

theorem ReadsItems.append (h : ReadsItems n read text n text') (h' : ReadsItems n read' text' m R) :
    ReadsItems n (read ++ read') text m R := by
  refine ⟨h.start, fun s tokens indents hhas => ?_⟩
  obtain ⟨s', hsteps, hhas'⟩ := h.steps s tokens indents hhas
  obtain ⟨s'', hsteps', hhas''⟩ := h'.steps s' _ indents hhas'
  refine ⟨s'', hsteps.trans hsteps', ?_⟩
  simpa using hhas''

theorem below_of_start (h : ∃ c cs, text = c :: cs ∧ StartsToken c) (n : Nat) :
    Below n (pad n ++ text) text := by
  obtain ⟨c, cs, rfl, hc⟩ := h
  exact .token cs hc

/-- A mapping below its key. -/
theorem ReadsEntries.value {k : Nat} (h : ReadsEntries k read text m R) (hlt : n < k) :
    ReadsValue n (.blockMapping :: read ++ [.blockEnd]) ('\n' :: (pad k ++ text)) m R := by
  refine ⟨rfl, fun p tokens indents _ => ?_⟩
  have hstands := Lexer.stands_lineEnd (below_of_start h.start k) p tokens (n :: indents) false
  exact h.mapping hlt rfl hstands

/-- A sequence below its key. -/
theorem ReadsItems.value (h : ReadsItems n read text m R) :
    ReadsValue n read ('\n' :: (pad n ++ text)) m R := by
  refine ⟨rfl, fun p tokens indents _ => ?_⟩
  have hstands := Lexer.stands_lineEnd (below_of_start h.start n) p tokens (n :: indents) false
  exact h.steps _ tokens indents (.of_eq rfl rfl hstands)

end Steps

/-! ## The scalar at the end settles the rest -/

/-- Lines that end in a scalar are read, whatever is read in its place as the scalar. -/
structure Settled (n : Nat) (reads : List Char → Nat → List Char → Prop) (lines : List Char)
    (leaf : Data) (front : List Char) (k : Nat) : Prop where
  lines : lines = front ++ ' ' :: endLine (leaf.inline k)
  isLeaf : leaf.IsLeaf
  deep : n ≤ k
  reads : ∀ (text : List Char) (m : Nat) (R : List Char), m ≤ n → Reads k text leaf.leafTokens m R →
    reads (front ++ ' ' :: text) m R

/-- They are read together with what stands below. -/
theorem Settled.reads_line {n k : Nat} {reads : List Char → Nat → List Char → Prop}
    {lines front : List Char} {leaf : Data} (h : Settled n reads lines leaf front k) {m : Nat}
    {below R : List Char} (hbelow : Below m below R) (hm : m ≤ n) : reads (lines ++ below) m R := by
  rw [h.lines, List.append_assoc]
  exact h.reads _ m R hm (reads_leaf h.isLeaf hbelow (Nat.le_trans hm h.deep))

/-- They are read at the end of the stream, without the end of the last line. -/
theorem Settled.reads_all {n k : Nat} {reads : List Char → Nat → List Char → Prop}
    {lines front : List Char} {leaf : Data} (h : Settled n reads lines leaf front k)
    (hkeeps : leaf.KeepsEnd) : reads (front ++ ' ' :: leaf.inline k) 0 [] :=
  h.reads _ 0 [] (Nat.zero_le n) (reads_leaf_all h.isLeaf hkeeps k 0)

/-- The same holds behind more text. -/
theorem Settled.behind {n n' k : Nat} {reads reads' : List Char → Nat → List Char → Prop}
    {lines front : List Char} {leaf : Data} (h : Settled n reads lines leaf front k) (hle : n' ≤ n)
    (before : List Char)
    (hreads : ∀ text m R, m ≤ n' → reads text m R → reads' (before ++ text) m R) :
    Settled n' reads' (before ++ lines) leaf (before ++ front) k := by
  refine ⟨?_, h.isLeaf, Nat.le_trans hle h.deep, fun text m R hm hread => ?_⟩
  · rw [h.lines, List.append_assoc]
  · rw [List.append_assoc]
    exact hreads _ m R hm (h.reads text m R (Nat.le_trans hm hle) hread)

theorem Settled.leaf {d : Data} (h : d.IsLeaf) (n : Nat) :
    Settled n (ReadsValue n d.tokens) (valueText n d) d.last [] n := by
  cases h <;> exact ⟨rfl, by constructor, Nat.le_refl n, fun _ _ _ _ hread => .of_reads hread⟩

theorem Settled.entry {n k : Nat} {read : List Token} {lines front : List Char} {leaf : Data}
    {key : String} (hkey : KeyWord key) (h : Settled n (ReadsValue n read) lines leaf front k) :
    Settled n (ReadsEntries n (.key :: .scalar .plain key.toList :: .value :: read))
      (key.toList ++ ':' :: lines) leaf (key.toList ++ ':' :: front) k := by
  have hbehind : Settled n (ReadsEntries n (.key :: .scalar .plain key.toList :: .value :: read))
      (key.toList ++ [':'] ++ lines) leaf (key.toList ++ [':'] ++ front) k := by
    refine h.behind (Nat.le_refl n) _ fun text m R _ hread => ?_
    rw [List.append_assoc]
    exact hread.entry hkey
  simpa using hbehind

/-- So do lines with more of them below, which begin at the same column. -/
theorem Settled.above {n k k' : Nat} {reads reads' both : List Char → Nat → List Char → Prop}
    {lines lines' front front' : List Char} {leaf leaf' : Data}
    (h : Settled n reads lines leaf front k) (h' : Settled n reads' lines' leaf' front' k')
    (hstart : ∀ text m R, reads' text m R → ∃ c cs, text = c :: cs ∧ StartsToken c)
    (hboth : ∀ text text' m R, reads text n text' → reads' text' m R → both text m R) :
    Settled n both (lines ++ (pad n ++ lines')) leaf' (lines ++ (pad n ++ front')) k' := by
  rw [← List.append_assoc, ← List.append_assoc]
  refine h'.behind (Nat.le_refl n) (lines ++ pad n) fun text m R _ hread => ?_
  have hbelow := below_of_start (hstart text m R hread) n
  rw [List.append_assoc]
  exact hboth _ text m R (h.reads_line hbelow (Nat.le_refl n)) hread

theorem Settled.entries {n k k' : Nat} {read read' : List Token} {lines lines' front front' : List Char}
    {leaf leaf' : Data} (h : Settled n (ReadsEntries n read) lines leaf front k)
    (h' : Settled n (ReadsEntries n read') lines' leaf' front' k') :
    Settled n (ReadsEntries n (read ++ read')) (lines ++ (pad n ++ lines')) leaf'
      (lines ++ (pad n ++ front')) k' :=
  h.above h' (fun _ _ _ hread => hread.start) fun _ _ _ _ hread hread' => hread.append hread'

theorem Settled.item {n k : Nat} {read : List Token} {lines front : List Char} {leaf : Data}
    (h : Settled (n + 2) (ReadsEntries (n + 2) read) lines leaf front k) :
    Settled n (ReadsItems n (.blockEntry :: (.blockMapping :: read ++ [.blockEnd])))
      ('-' :: ' ' :: lines) leaf ('-' :: ' ' :: front) k :=
  h.behind (by omega) ['-', ' '] fun _ _ _ _ hread => hread.item

theorem Settled.items {n k k' : Nat} {read read' : List Token} {lines lines' front front' : List Char}
    {leaf leaf' : Data} (h : Settled n (ReadsItems n read) lines leaf front k)
    (h' : Settled n (ReadsItems n read') lines' leaf' front' k') :
    Settled n (ReadsItems n (read ++ read')) (lines ++ (pad n ++ lines')) leaf'
      (lines ++ (pad n ++ front')) k' :=
  h.above h' (fun _ _ _ hread => hread.start) fun _ _ _ _ hread hread' => hread.append hread'

theorem Settled.mapping {n k : Nat} {read : List Token} {lines front : List Char} {leaf : Data}
    (h : Settled (n + 2) (ReadsEntries (n + 2) read) lines leaf front k) :
    Settled n (ReadsValue n (.blockMapping :: read ++ [.blockEnd])) ('\n' :: (pad (n + 2) ++ lines))
      leaf ('\n' :: (pad (n + 2) ++ front)) k :=
  h.behind (by omega) ('\n' :: pad (n + 2)) fun _ _ _ _ hread => hread.value (by omega)

theorem Settled.sequence {n k : Nat} {read : List Token} {lines front : List Char} {leaf : Data}
    (h : Settled n (ReadsItems n read) lines leaf front k) :
    Settled n (ReadsValue n read) ('\n' :: (pad n ++ lines)) leaf ('\n' :: (pad n ++ front)) k :=
  h.behind (Nat.le_refl n) ('\n' :: pad n) fun _ _ _ _ hread => hread.value

mutual

/-- **A value is read as its tokens**, if the scalar at its end is. -/
theorem Data.settled (d : Data) (n : Nat) (h : d.Regular) :
    ∃ front k, Settled n (ReadsValue n d.tokens) (valueText n d) d.last front k := by
  match d with
  | .str s => exact ⟨_, _, .leaf (.str s) n⟩
  | .int i =>
      rw [Data.Regular] at h
      obtain ⟨i, rfl⟩ := Int.eq_ofNat_of_zero_le h.1
      exact ⟨_, _, .leaf (.nat i) n⟩
  | .seq [] => exact ⟨_, _, .leaf .noItems n⟩
  | .seq (d :: ds) =>
      rw [Data.Regular] at h
      obtain ⟨leaf, front, k, text, hleaf, htext, hsettled⟩ := items_settled (d :: ds) n (by simp) h
      rw [valueText, htext, Data.last, hleaf]
      exact ⟨_, _, hsettled.sequence⟩
  | .map [] =>
      rw [Data.Regular] at h
      exact absurd rfl h.1
  | .map (e :: es) =>
      rw [Data.Regular] at h
      obtain ⟨leaf, front, k, text, hleaf, htext, hsettled⟩ :=
        entries_settled (e :: es) (n + 2) h.1 h.2
      rw [valueText, htext, Data.last, hleaf]
      exact ⟨_, _, hsettled.mapping⟩

/-- **Items are read as their tokens**, if the scalar at their end is. -/
theorem items_settled (ds : List Data) (n : Nat) (hne : ds ≠ []) (h : RegularItems ds) :
    ∃ leaf front k text, lastOfItems? ds = some leaf ∧ itemLines n ds = pad n ++ text ∧
      Settled n (ReadsItems n (itemTokens ds)) text leaf front k := by
  match ds with
  | [] => exact absurd rfl hne
  | .map [] :: ds => exact absurd rfl h.1.1
  | .map (e :: es) :: ds =>
      obtain ⟨⟨hne', hentries⟩, hmore⟩ := h
      obtain ⟨leaf, front, k, text, hleaf, htext, hsettled⟩ :=
        entries_settled (e :: es) (n + 2) hne' hentries
      -- the first entry stands behind the dash, in place of its indentation
      have hdrop : (entryLines (n + 2) (e :: es)).drop (n + 2) = text := by
        rw [htext]
        exact List.drop_left' (List.length_replicate ..)
      rw [itemLines_cons, hdrop]
      match ds with
      | [] =>
          refine ⟨leaf, '-' :: ' ' :: front, k, _, ?_, rfl, ?_⟩
          · rw [lastOfItems?, Data.last, hleaf]
            rfl
          · simpa [itemTokens, itemLines, Data.tokens] using hsettled.item
      | d :: ds =>
          obtain ⟨leaf', front', k', text', hleaf', htext', hsettled'⟩ :=
            items_settled (d :: ds) n (by simp) hmore
          refine ⟨leaf', '-' :: ' ' :: (text ++ (pad n ++ front')), k', _, ?_, rfl, ?_⟩
          · rw [lastOfItems?, hleaf']
            rfl
          · rw [htext', itemTokens]
            exact hsettled.item.items hsettled'

/-- **Entries are read as their tokens**, if the scalar at their end is. -/
theorem entries_settled (es : List (String × Data)) (n : Nat) (hne : es ≠ [])
    (h : RegularEntries es) :
    ∃ leaf front k text, lastOfEntries? es = some leaf ∧ entryLines n es = pad n ++ text ∧
      Settled n (ReadsEntries n (entryTokens es)) text leaf front k := by
  match es with
  | [] => exact absurd rfl hne
  | (key, d) :: es =>
      obtain ⟨hkey, -, hd, hmore⟩ := h
      obtain ⟨front, k, hsettled⟩ := d.settled n hd
      rw [entryLines_cons hkey]
      match es with
      | [] =>
          refine ⟨d.last, key.toList ++ ':' :: front, k, _, rfl, rfl, ?_⟩
          simpa [entryTokens, entryLines] using hsettled.entry hkey
      | e :: es =>
          obtain ⟨leaf', front', k', text', hleaf', htext', hsettled'⟩ :=
            entries_settled (e :: es) n (by simp) hmore
          refine ⟨leaf', key.toList ++ ':' :: (valueText n d ++ (pad n ++ front')), k', _, ?_, rfl, ?_⟩
          · rw [lastOfEntries?, hleaf']
            rfl
          · have hentries := (hsettled.entry hkey).entries hsettled'
            rw [htext', entryTokens]
            simpa using hentries

end

end BomAssembly.Yaml
