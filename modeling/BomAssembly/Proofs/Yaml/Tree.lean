import BomAssembly.Proofs.Yaml.Stream
import BomAssembly.Yaml.Node

/-!
# From tokens to nodes

The tokens of a value are read as its node. No name and no tag stands in front of any of them, so that
the reader only passes over tokens.
-/

namespace BomAssembly.Yaml

mutual

/-- The node that a value is read as. -/
def Data.node : Data → Node
  | .null => .scalar none .plain "null"
  | .bool b => .scalar none .plain (if b then "true" else "false")
  | .int i => .scalar none .plain (toString i)
  | .str s => .scalar none (styleOf false s) s
  | .seq ds => .sequence none (itemNodes ds)
  | .map es => .mapping none (entryNodes es)

/-- The nodes of items. -/
def itemNodes : List Data → List Node
  | [] => []
  | d :: ds => d.node :: itemNodes ds

/-- The nodes of entries. -/
def entryNodes : List (String × Data) → List (Node × Node)
  | [] => []
  | (k, d) :: es => (.scalar none .plain k, d.node) :: entryNodes es

end

namespace NodeReader

/-- The reader in front of other tokens. -/
def before (s : NodeReader) (tokens : List Token) : NodeReader := { s with tokens }

end NodeReader

section Steps

variable (s : NodeReader) (rest : List Token)

theorem readNode_scalar (fuel : Nat) (setting : Setting) (style : Style) (text : List Char) :
    readNode (fuel + 1) setting (s.before (.scalar style text :: rest)) =
      some (.scalar none style (String.ofList text), s.before rest) := by
  rw [readNode]
  rfl

theorem readNode_mapping {fuel : Nat} {setting : Setting} (hsetting : setting ≠ .flow)
    {tokens : List Token} {entries : List (Node × Node)}
    (h : readEntries fuel (s.before tokens) = some (entries, s.before rest)) :
    readNode (fuel + 1) setting (s.before (.blockMapping :: tokens)) =
      some (.mapping none entries, s.before rest) := by
  have hread : ((readEntries fuel (s.before tokens)).bind fun r =>
      some (Node.mapping none r.1, r.2)) = some (.mapping none entries, s.before rest) := by
    rw [h]
    rfl
  cases setting with
  | flow => exact absurd rfl hsetting
  | block =>
      rw [readNode]
      show ((readEntries fuel (s.before tokens)).bind fun r => some (Node.mapping none r.1, r.2)).bind
        (fun r => some (NodeReader.remember none r.1 r.2)) = _
      rw [hread]
      rfl
  | entry =>
      rw [readNode]
      show ((readEntries fuel (s.before tokens)).bind fun r => some (Node.mapping none r.1, r.2)).bind
        (fun r => some (NodeReader.remember none r.1 r.2)) = _
      rw [hread]
      rfl

theorem readNode_noItems (fuel : Nat) (setting : Setting) :
    readNode (fuel + 2) setting (s.before (.flowSequence :: .flowSequenceEnd :: rest)) =
      some (.sequence none [], s.before rest) := by
  rw [readNode]
  rfl

theorem readNode_items {fuel : Nat} {tokens : List Token} {items : List Node}
    (h : readFlatItems fuel (s.before (.blockEntry :: tokens)) = some (items, s.before rest)) :
    readNode (fuel + 1) .entry (s.before (.blockEntry :: tokens)) =
      some (.sequence none items, s.before rest) := by
  rw [readNode]
  show ((readFlatItems fuel (s.before (.blockEntry :: tokens))).bind fun r =>
    some (Node.sequence none r.1, r.2)).bind (fun r => some (NodeReader.remember none r.1 r.2)) = _
  rw [h]
  rfl

/-- A key or a value that is there. -/
theorem readSide_eq {t : Token} (ht : t.endsEntry = false) (fuel : Nat) (tokens : List Token) :
    readSide (fuel + 1) (s.before (t :: tokens)) = readNode fuel .entry (s.before (t :: tokens)) := by
  have hany : (s.before (t :: tokens)).next?.any Token.endsEntry = t.endsEntry := rfl
  rw [readSide, hany, ht]
  rfl

/-- An entry with a key and a value. -/
theorem readEntries_entry {fuel : Nat} {k v : Node} {tokens tokens' tokens'' : List Token}
    {more : List (Node × Node)}
    (hk : readSide fuel (s.before tokens) = some (k, s.before (.value :: tokens')))
    (hv : readSide fuel (s.before tokens') = some (v, s.before tokens''))
    (hmore : readEntries fuel (s.before tokens'') = some (more, s.before rest)) :
    readEntries (fuel + 1) (s.before (.key :: tokens)) = some ((k, v) :: more, s.before rest) := by
  have hskip : (s.before (.key :: tokens)).skip = s.before tokens := rfl
  have hskip' : (s.before (.value :: tokens')).skip = s.before tokens' := rfl
  have hvalue : ((s.before (.value :: tokens')).next? == some .value) = true := rfl
  have hnext : (s.before (.key :: tokens)).next? = some .key := rfl
  rw [readEntries, hnext]
  dsimp only
  rw [hskip, hk]
  dsimp only [Option.bind_eq_bind, Option.bind_some]
  rw [if_pos hvalue, hskip', hv]
  dsimp only [Option.bind_eq_bind, Option.bind_some]
  rw [hmore]
  rfl

theorem readEntries_end (fuel : Nat) :
    readEntries (fuel + 1) (s.before (.blockEnd :: rest)) = some ([], s.before rest) := by
  rw [readEntries]
  rfl

/-- An item that is a mapping. -/
theorem readFlatItems_item {fuel : Nat} {n : Node} {tokens tokens' : List Token} {more : List Node}
    (hn : readNode fuel .block (s.before (.blockMapping :: tokens)) = some (n, s.before tokens'))
    (hmore : readFlatItems fuel (s.before tokens') = some (more, s.before rest)) :
    readFlatItems (fuel + 1) (s.before (.blockEntry :: .blockMapping :: tokens)) =
      some (n :: more, s.before rest) := by
  have hnext : (s.before (.blockEntry :: .blockMapping :: tokens)).next? = some .blockEntry := rfl
  have hskip : (s.before (.blockEntry :: .blockMapping :: tokens)).skip =
      s.before (.blockMapping :: tokens) := rfl
  have hthere : ((s.before (.blockMapping :: tokens)).next?.any fun t =>
      t == .blockEntry || t.endsEntry) = false := rfl
  rw [readFlatItems, hnext]
  dsimp only
  rw [hskip, hthere, if_neg (by decide), hn]
  dsimp only [Option.bind_eq_bind, Option.bind_some]
  rw [hmore]
  rfl

theorem readFlatItems_end (fuel : Nat) (h : rest.head? ≠ some .blockEntry) :
    readFlatItems (fuel + 1) (s.before rest) = some ([], s.before rest) := by
  have hnext : (s.before rest).next? = rest.head? := rfl
  rw [readFlatItems, hnext]
  split
  · next heq => exact absurd heq h
  · rfl

end Steps

/-! ## Reading the tokens of a value -/

/-- A scalar behind a key. -/
theorem readSide_scalar (s : NodeReader) (rest : List Token) (fuel : Nat) (hfuel : 2 ≤ fuel)
    (style : Style) (text : String) :
    readSide fuel (s.before (.scalar style text.toList :: rest)) =
      some (.scalar none style text, s.before rest) := by
  obtain ⟨fuel, rfl⟩ : ∃ k, fuel = k + 2 := ⟨fuel - 2, by omega⟩
  rw [readSide_eq s rfl, readNode_scalar, String.ofList_toList]

mutual

/-- **The tokens of a value are read as its node.** -/
theorem Data.read (d : Data) (h : d.Regular) (s : NodeReader) {rest : List Token}
    (hrest : rest.head? ≠ some .blockEntry) (fuel : Nat) (hfuel : 2 * d.tokens.length + 3 ≤ fuel) :
    readSide fuel (s.before (d.tokens ++ rest)) = some (d.node, s.before rest) := by
  obtain ⟨fuel, rfl⟩ : ∃ k, fuel = k + 3 := ⟨fuel - 3, by omega⟩
  match d with
  | .str t =>
      rw [Data.node]
      exact readSide_scalar s rest _ (by omega) (styleOf false t) t
  | .int i =>
      rw [Data.node]
      exact readSide_scalar s rest _ (by omega) .plain (toString i)
  | .seq [] =>
      rw [Data.node, itemNodes]
      exact (readSide_eq s rfl (fuel + 2) _).trans (readNode_noItems s rest fuel .entry)
  | .seq (d :: ds) =>
      rw [Data.Regular] at h
      rw [Data.tokens] at hfuel ⊢
      have hitems := items_read (d :: ds) h s hrest (fuel + 1) (by omega)
      rw [itemTokens, List.cons_append, List.cons_append] at hitems ⊢
      rw [readSide_eq s rfl, readNode_items s rest hitems, Data.node]
  | .map es =>
      rw [Data.Regular] at h
      have htokens : (Data.map es).tokens ++ rest =
          .blockMapping :: (entryTokens es ++ .blockEnd :: rest) := by
        simp [Data.tokens]
      have hlength : (Data.map es).tokens.length = (entryTokens es).length + 2 := by
        simp [Data.tokens]
      have hentries := entries_read es h.2 s rest (fuel + 1) (by omega)
      rw [htokens, readSide_eq s rfl, readNode_mapping s rest (by decide) hentries, Data.node]

/-- The tokens of items are read as their nodes. -/
theorem items_read (ds : List Data) (h : RegularItems ds) (s : NodeReader) {rest : List Token}
    (hrest : rest.head? ≠ some .blockEntry) (fuel : Nat)
    (hfuel : 2 * (itemTokens ds).length + 1 ≤ fuel) :
    readFlatItems fuel (s.before (itemTokens ds ++ rest)) = some (itemNodes ds, s.before rest) := by
  obtain ⟨fuel, rfl⟩ : ∃ k, fuel = k + 1 := ⟨fuel - 1, by omega⟩
  match ds with
  | [] => exact readFlatItems_end s rest fuel hrest
  | .map es :: ds =>
      obtain ⟨⟨-, hentries⟩, hmore⟩ := h
      have htokens : itemTokens (.map es :: ds) ++ rest = .blockEntry :: .blockMapping ::
          (entryTokens es ++ .blockEnd :: (itemTokens ds ++ rest)) := by
        simp [itemTokens, Data.tokens]
      have hlength : (itemTokens (.map es :: ds)).length =
          (entryTokens es).length + (itemTokens ds).length + 3 := by
        simp [itemTokens, Data.tokens]
        omega
      obtain ⟨fuel, rfl⟩ : ∃ k, fuel = k + 1 := ⟨fuel - 1, by omega⟩
      have hitem := entries_read es hentries s (itemTokens ds ++ rest) fuel (by omega)
      have hblock : Setting.block ≠ .flow := by decide
      have hnode := readNode_mapping s (itemTokens ds ++ rest) hblock hitem
      have hitems := items_read ds hmore s hrest (fuel + 1) (by omega)
      rw [htokens, readFlatItems_item s rest hnode hitems, itemNodes, Data.node]

/-- The tokens of entries are read as their nodes. -/
theorem entries_read (es : List (String × Data)) (h : RegularEntries es) (s : NodeReader)
    (rest : List Token) (fuel : Nat) (hfuel : 2 * (entryTokens es).length + 1 ≤ fuel) :
    readEntries fuel (s.before (entryTokens es ++ .blockEnd :: rest)) =
      some (entryNodes es, s.before rest) := by
  obtain ⟨fuel, rfl⟩ : ∃ k, fuel = k + 1 := ⟨fuel - 1, by omega⟩
  match es with
  | [] => exact readEntries_end s rest fuel
  | (key, d) :: es =>
      obtain ⟨-, -, hd, hmore⟩ := h
      have htokens : entryTokens ((key, d) :: es) ++ .blockEnd :: rest = .key ::
          .scalar .plain key.toList :: .value ::
            (d.tokens ++ (entryTokens es ++ .blockEnd :: rest)) := by
        simp [entryTokens]
      have hlength : (entryTokens ((key, d) :: es)).length =
          d.tokens.length + (entryTokens es).length + 3 := by
        simp [entryTokens]
      -- a sequence below a key ends where no further item is announced
      have hbehind : (entryTokens es ++ .blockEnd :: rest).head? ≠ some .blockEntry := by
        cases es with
        | nil => simp [entryTokens]
        | cons e es => simp [entryTokens]
      have hkey := readSide_scalar s (.value :: (d.tokens ++ (entryTokens es ++ .blockEnd :: rest)))
        fuel (by omega) .plain key
      have hvalue := d.read hd s hbehind fuel (by omega)
      rw [htokens, readEntries_entry s rest hkey hvalue (entries_read es hmore s rest _ (by omega)),
        entryNodes]

end

/-! ## Documents -/

/-- The document that a value is read as. -/
def Data.document (d : Data) : Document := ⟨some d.node, []⟩

theorem ofTokens?_map {es : List (String × Data)} (h : RegularEntries es) :
    Document.ofTokens? ((Data.map es).tokens ++ [.streamEnd]) = some (Data.map es).document := by
  have htokens : (Data.map es).tokens ++ [.streamEnd] =
      .blockMapping :: (entryTokens es ++ .blockEnd :: [.streamEnd]) := by
    simp [Data.tokens]
  -- named, so that the fuel, which is made from their length, is not evaluated
  obtain ⟨tokens, htail⟩ : ∃ tokens, entryTokens es ++ .blockEnd :: [.streamEnd] = tokens := ⟨_, rfl⟩
  have hlength : tokens.length = (entryTokens es).length + 2 := by
    rw [← htail]
    simp
  have hentries := entries_read es h { tokens := [], handles := standardHandles } [.streamEnd]
    (2 * (tokens.length + 1) + 1) (by omega)
  have hblock : Setting.block ≠ .flow := by decide
  rw [htail] at hentries
  have hnode := readNode_mapping _ [.streamEnd] hblock hentries
  have hdirectives : readDirectives false [] (.blockMapping :: tokens) =
      some ([], .blockMapping :: tokens) := rfl
  have hsome : (Token.blockMapping :: tokens == [.streamEnd]) = false := rfl
  rw [htokens, htail, Document.ofTokens?, hsome, hdirectives, if_neg (by decide)]
  dsimp only [Option.bind_eq_bind, Option.bind_some]
  rw [if_pos rfl]
  have hread : readNode (2 * (Token.blockMapping :: tokens).length + 2) .block
      { tokens := .blockMapping :: tokens, handles := [] ++ standardHandles } = _ := hnode
  rw [hread]
  rfl

section Documents

variable {es : List (String × Data)} (hne : es ≠ []) (h : RegularEntries es)

include hne h

/-- **A document that was written is read as its value's.** -/
theorem parse?_render : Document.parse? (Data.map es).render = some (Data.map es).document := by
  rw [Document.parse?, tokens?_render hne h, Option.bind_some, ofTokens?_map h]

/-- So it is when it is trimmed, unless what is written last ends in a blank that nothing marks. -/
theorem parse?_trimmed_render (hkeeps : (Data.map es).last.KeepsEnd) :
    Document.parse? (Text.trimmed (Data.map es).render) = some (Data.map es).document := by
  rw [Document.parse?, tokens?_trimmed_render hne h hkeeps, Option.bind_some, ofTokens?_map h]

end Documents

end BomAssembly.Yaml
