import BomAssembly.Proofs.Number.Spelling
import BomAssembly.Proofs.Yaml.Resolution
import BomAssembly.Proofs.Yaml.Tree
import BomAssembly.Yaml.Record

/-!
# What written documents mean

A document that was written means the value it was written from (`value?_document`): a text is a text
in whatever style it stands, a number is that number, and the keys of a mapping are different.
-/

namespace BomAssembly.Yaml

open Number (decimalValue head?_toDigits isDigit_of_mem_toDigits ofDigits toList_toString_nat)

/-! ## Numbers -/

theorem hexValue?_of_isDigit {c : Char} (h : c.isDigit = true) :
    Text.Percent.hexValue? c = some (decimalValue c) ∧ decimalValue c < 10 := by
  obtain ⟨hchar, hlt⟩ := Number.digitChar_decimalValue h
  have key : ∀ n : Fin 10, Text.Percent.hexValue? (Nat.digitChar n) = some n.val := by decide
  have hkey := key ⟨decimalValue c, hlt⟩
  dsimp only at hkey
  rw [hchar] at hkey
  exact ⟨hkey, hlt⟩

theorem digitsIn?_of_digits {ds : List Char} (hne : ds ≠ []) (h : ∀ c ∈ ds, c.isDigit = true) :
    digitsIn? 10 ds = some (ofDigits 10 decimalValue ds) := by
  have hvalues : ds.mapM Text.Percent.hexValue? = some (ds.map decimalValue) := by
    clear hne
    induction ds with
    | nil => rfl
    | cons c cs ih =>
        rw [List.mapM_cons, (hexValue?_of_isDigit (h c List.mem_cons_self)).1,
          ih fun d hd => h d (List.mem_cons_of_mem c hd)]
        rfl
  have hsmall : ((ds.map decimalValue).any fun d => 10 ≤ d) = false := by
    rw [List.any_eq_false]
    intro n hn
    obtain ⟨c, hc, rfl⟩ := List.mem_map.mp hn
    have hlt := (hexValue?_of_isDigit (h c hc)).2
    simpa using hlt
  have hsome : (ds.map decimalValue).isEmpty = false := by
    rw [List.isEmpty_eq_false_iff]
    simpa using hne
  rw [digitsIn?, hvalues]
  dsimp only [Option.bind_eq_bind, Option.bind_some]
  rw [hsmall, hsome, List.foldl_map]
  rfl

theorem unsigned_of_digits {ds : List Char} (h : ∀ c ∈ ds, c.isDigit = true) :
    unsigned ds = (false, ds) := by
  unfold unsigned
  split
  · exact absurd (h '-' List.mem_cons_self) (by decide)
  · exact absurd (h '+' List.mem_cons_self) (by decide)
  · rfl

/-- **A row of digits is an integer**, and so it is with a minus sign, unless a zero stands in front of
others. -/
theorem integer?_of_digits {ds : List Char} (hne : ds ≠ []) (h : ∀ c ∈ ds, c.isDigit = true)
    (hunpadded : ∀ d more, ds ≠ '0' :: d :: more) (negative : Bool) :
    integer? ((if negative then ['-'] else []) ++ ds) = some (if negative then
      -(ofDigits 10 decimalValue ds : Int) else ofDigits 10 decimalValue ds) := by
  have hunsigned : unsigned ((if negative then ['-'] else []) ++ ds) = (negative, ds) := by
    cases negative with
    | true => rfl
    | false => exact unsigned_of_digits h
  have hpadded : isPadded ((if negative then ['-'] else []) ++ ds) = false := by
    rw [isPadded, hunsigned]
    dsimp only
    split
    · exact absurd rfl (hunpadded _ _)
    · rfl
  rw [integer?, hunsigned]
  dsimp only
  split
  · exact absurd rfl (hunpadded _ _)
  · exact absurd rfl (hunpadded _ _)
  · exact absurd rfl (hunpadded _ _)
  · rw [if_neg (by simp [hpadded]), digitsIn?_of_digits hne h]
    rfl

theorem integer?_toDigits (n : Nat) : integer? (Nat.toDigits 10 n) = some (n : Int) := by
  have hdigits : ∀ c ∈ Nat.toDigits 10 n, c.isDigit = true := fun c hc => isDigit_of_mem_toDigits hc
  have hunpadded : ∀ d more, Nat.toDigits 10 n ≠ '0' :: d :: more := by
    intro d more heq
    rcases Nat.eq_zero_or_pos n with rfl | hpos
    · exact absurd heq (by simp)
    · exact head?_toDigits hpos (by rw [heq]; rfl)
  have hvalue := integer?_of_digits Nat.toDigits_ne_nil hdigits hunpadded false
  rw [Number.ofDigits_toDigits] at hvalue
  exact hvalue

/-- **An integer is read as itself**: no word of another kind is one. -/
theorem plainValue_of_integer? {s : String} {i : Int} (h : integer? s.toList = some i)
    (hwide : fits 128 i = true) : plainValue s = if fits 64 i then .int i else .wide i := by
  have hword : ∀ w : String, integer? w.toList = none → (s == w) = false := by
    rintro w hw
    rw [beq_eq_false_iff_ne]
    rintro rfl
    exact absurd (hw.symm.trans h) (by simp)
  have hnull : isNullWord s = false := by
    rw [isNullWord, hword "null" (by decide), hword "Null" (by decide), hword "NULL" (by decide),
      hword "~" (by decide)]
    rfl
  have hbool : boolWord? s = none := by
    rw [boolWord?, hword "true" (by decide), hword "True" (by decide), hword "TRUE" (by decide),
      hword "false" (by decide), hword "False" (by decide), hword "FALSE" (by decide)]
    rfl
  rw [plainValue, hword "" (by decide), hnull, hbool, h, Option.filter_some, if_pos hwide]
  rfl

theorem fits_wide {i : Int} (h : fits 64 i = true) : fits 128 i = true := by
  have hlow : Nat.pow 2 (64 - 1) ≤ Nat.pow 2 (128 - 1) := by decide
  have hhigh : Nat.pow 2 64 ≤ Nat.pow 2 128 := by decide
  rw [fits, decide_eq_true_eq] at h ⊢
  omega

/-- **A number is read as itself.** -/
theorem plainValue_nat {n : Nat} (h : n < Nat.pow 2 64) :
    plainValue (toString (n : Int)) = .int n := by
  have hfits : fits 64 n = true := by
    rw [fits, decide_eq_true_eq]
    omega
  have hinteger : integer? (toString (n : Int)).toList = some (n : Int) := by
    rw [toList_toString_nat, integer?_toDigits]
  rw [plainValue_of_integer? hinteger (fits_wide hfits), if_pos hfits]

/-- **Only integers that are too long are nothing.** -/
theorem ofPlain?_eq_none_iff {s : String} : Value.ofPlain? s = none ↔
    ∃ i, integer? s.toList = some i ∧ fits 128 i = true ∧ fits 64 i = false := by
  constructor
  · intro h
    unfold Value.ofPlain? at h
    split at h
    · exact absurd h (by simp)
    · exact absurd h (by simp)
    · exact absurd h (by simp)
    · next i hwide =>
      unfold plainValue at hwide
      split at hwide
      · exact absurd hwide (by simp)
      · split at hwide
        · exact absurd hwide (by simp)
        · split at hwide
          · next j hj =>
            obtain ⟨hinteger, hfits⟩ := Option.filter_eq_some_iff.mp hj
            split at hwide
            · exact absurd hwide (by simp)
            · next hlong => exact ⟨j, hinteger, hfits, by simpa using hlong⟩
          · split at hwide
            · exact absurd hwide (by simp)
            · split at hwide <;> exact absurd hwide (by simp)
    · exact absurd h (by simp)
    · exact absurd h (by simp)
  · rintro ⟨i, hinteger, hwide, hlong⟩
    rw [Value.ofPlain?, plainValue_of_integer? hinteger hwide, hlong]
    rfl

/-- A plain scalar has no tag. -/
theorem hasTag_of_ofPlain? {s : String} {v : Value} (h : Value.ofPlain? s = some v) :
    v.hasTag = false := by
  unfold Value.ofPlain? at h
  cases hvalue : plainValue s
  all_goals
    rw [hvalue] at h
    cases h
  all_goals rfl

/-! ## Values -/

mutual

/-- The value that a document means. -/
def Data.value : Data → Value
  | .null => .null
  | .bool b => .bool b
  | .int i => .int i
  | .str s => .str s
  | .seq ds => .seq (itemValues ds)
  | .map es => .map (entryValues es)

/-- The values of items. -/
def itemValues : List Data → List Value
  | [] => []
  | d :: ds => d.value :: itemValues ds

/-- The keys and values of entries. -/
def entryValues : List (String × Data) → List (Value × Value)
  | [] => []
  | (k, d) :: es => (.str k, d.value) :: entryValues es

end

mutual

/-- How deep collections are nested. -/
def Data.height : Data → Nat
  | .seq ds => itemsHeight ds + 1
  | .map es => entriesHeight es + 1
  | _ => 0

/-- How deep collections are nested in items. -/
def itemsHeight : List Data → Nat
  | [] => 0
  | d :: ds => max d.height (itemsHeight ds)

/-- How deep collections are nested in entries. -/
def entriesHeight : List (String × Data) → Nat
  | [] => 0
  | (_, d) :: es => max d.height (entriesHeight es)

end

mutual

/-- Nothing that is written has a tag. -/
theorem Data.hasTag_value (d : Data) : d.value.hasTag = false := by
  match d with
  | .null => rfl
  | .bool b => rfl
  | .int i => rfl
  | .str s => rfl
  | .seq ds =>
      rw [Data.value, Value.hasTag]
      exact anyTag_itemValues ds
  | .map es =>
      rw [Data.value, Value.hasTag]
      exact anyEntryTag_entryValues es

theorem anyTag_itemValues (ds : List Data) : Value.anyTag (itemValues ds) = false := by
  match ds with
  | [] => rfl
  | d :: ds => rw [itemValues, Value.anyTag, d.hasTag_value, anyTag_itemValues ds, Bool.or_false]

theorem anyEntryTag_entryValues (es : List (String × Data)) :
    Value.anyEntryTag (entryValues es) = false := by
  match es with
  | [] => rfl
  | (k, d) :: es =>
      rw [entryValues, Value.anyEntryTag, d.hasTag_value, anyEntryTag_entryValues es]
      rfl

end

theorem addEntry_of_new {entries : List (Value × Value)} {k : String}
    (h : ∀ e ∈ entries, ∃ k', e.1 = .str k' ∧ k' ≠ k) (v : Value) :
    addEntry entries (.str k) v = some (entries ++ [(.str k, v)]) := by
  have hnone : (entries.any fun e => e.1.same (.str k)) = false := by
    rw [List.any_eq_false]
    intro e he
    obtain ⟨k', hk', hne⟩ := h e he
    rw [hk', Value.same]
    simpa using hne
  rw [addEntry, hnone]
  rfl

/-- Entries whose keys are texts. -/
def textEntries (fields : List (String × Value)) : List (Value × Value) :=
  fields.map fun f => (.str f.1, f.2)

theorem hasTag_textEntries (fields : List (String × Value)) :
    (Value.map (textEntries fields)).hasTag = fields.any fun f => f.2.hasTag := by
  rw [Value.hasTag]
  induction fields with
  | nil => rfl
  | cons f fields ih =>
      show (Value.hasTag (.str f.1) || f.2.hasTag || Value.anyEntryTag (textEntries fields)) = _
      rw [ih]
      rfl

/-- Entries are added behind others that have none of their keys. -/
theorem foldlM_addEntry_textEntries {fields : List (String × Value)}
    (h : (fields.map Prod.fst).Nodup) {before : List (Value × Value)}
    (hbefore : ∀ e ∈ before, ∃ k, e.1 = .str k ∧ k ∉ fields.map Prod.fst) :
    (textEntries fields).foldlM (fun es (k, v) => addEntry es k v) before =
      some (before ++ textEntries fields) := by
  induction fields generalizing before with
  | nil =>
      rw [textEntries, List.map_nil, List.append_nil]
      rfl
  | cons f fields ih =>
      obtain ⟨k, v⟩ := f
      rw [List.map_cons, List.nodup_cons] at h
      have hfirst : addEntry before (.str k) v = some (before ++ [(.str k, v)]) := by
        refine addEntry_of_new (fun e he => ?_) _
        obtain ⟨k', hk', hout⟩ := hbefore e he
        refine ⟨k', hk', ?_⟩
        rintro rfl
        exact hout (by simp)
      have hbefore' : ∀ e ∈ before ++ [(.str k, v)], ∃ k', e.1 = .str k' ∧
          k' ∉ fields.map Prod.fst := by
        intro e he
        rcases List.mem_append.mp he with he | he
        · obtain ⟨k', hk', hout⟩ := hbefore e he
          refine ⟨k', hk', fun hmem => hout ?_⟩
          rw [List.map_cons]
          exact List.mem_cons_of_mem _ hmem
        · rw [List.mem_singleton.mp he]
          exact ⟨k, rfl, h.1⟩
      have hsplit : textEntries ((k, v) :: fields) = (.str k, v) :: textEntries fields := rfl
      rw [hsplit, List.foldlM_cons]
      dsimp only
      rw [hfirst]
      dsimp only [Option.bind_eq_bind, Option.bind_some]
      rw [ih h.2 hbefore', List.append_assoc]
      rfl

/-- **Different keys make a mapping.** -/
theorem mappingValue?_textEntries {fields : List (String × Value)}
    (h : (fields.map Prod.fst).Nodup) :
    mappingValue? none (textEntries fields) = some (.map (textEntries fields)) := by
  have hnone : ∀ e ∈ ([] : List (Value × Value)), ∃ k, e.1 = .str k ∧ k ∉ fields.map Prod.fst :=
    fun e he => absurd he List.not_mem_nil
  rw [mappingValue?, foldlM_addEntry_textEntries h hnone]
  rfl

/-- Entries are not added behind others that have one of their keys, nor if they share one. -/
theorem foldlM_addEntry_of_repeated {fields : List (String × Value)} {before : List (Value × Value)}
    (h : (∃ e ∈ before, ∃ k ∈ fields.map Prod.fst, e.1 = .str k) ∨ ¬ (fields.map Prod.fst).Nodup) :
    (textEntries fields).foldlM (fun es (k, v) => addEntry es k v) before = none := by
  induction fields generalizing before with
  | nil => exact absurd h (by simp)
  | cons f fields ih =>
      obtain ⟨k, v⟩ := f
      have hsplit : textEntries ((k, v) :: fields) = (.str k, v) :: textEntries fields := rfl
      rw [hsplit, List.foldlM_cons]
      dsimp only
      rw [addEntry]
      split
      · rfl
      · next hnew =>
        refine ih ?_
        rw [List.map_cons, List.nodup_cons, not_and_or, not_not] at h
        rcases h with ⟨e, he, k', hk', hkey⟩ | hmem | hrepeated
        · rcases List.mem_cons.mp hk' with rfl | hk'
          · have hsame : e.1.same (.str k') = true := by rw [hkey, Value.same, beq_self_eq_true]
            exact absurd (List.any_eq_true.mpr ⟨e, he, hsame⟩) hnew
          · exact .inl ⟨e, List.mem_append_left _ he, k', hk', hkey⟩
        · exact .inl ⟨(.str k, v), List.mem_append_right _ List.mem_cons_self, k, hmem, rfl⟩
        · exact .inr hrepeated

/-- **A key that stands twice makes none.** -/
theorem mappingValue?_of_repeated {fields : List (String × Value)}
    (h : ¬ (fields.map Prod.fst).Nodup) : mappingValue? none (textEntries fields) = none := by
  rw [mappingValue?, foldlM_addEntry_of_repeated (.inr h)]
  rfl

theorem mappingValue?_entryValues {es : List (String × Data)} (h : RegularEntries es) :
    mappingValue? none (entryValues es) = some (.map (entryValues es)) := by
  have hfields : ∀ es, entryValues es = textEntries (es.map fun e => (e.1, e.2.value)) := by
    intro es
    induction es with
    | nil => rfl
    | cons e es ih => rw [entryValues, ih]; rfl
  have hnodup : ((es.map fun e => (e.1, e.2.value)).map Prod.fst).Nodup := by
    rw [List.map_map]
    induction es with
    | nil => exact List.nodup_nil
    | cons e es ih =>
        obtain ⟨-, hnew, -, hmore⟩ := h
        exact List.nodup_cons.mpr ⟨hnew, ih hmore⟩
  rw [hfields, mappingValue?_textEntries hnodup]

section Meaning

variable {document : Document} {limit : Nat}

theorem means_text {isKey : Bool} (s : String) (depth : Nat) :
    document.Means limit depth (.scalar none (styleOf isKey s) s) (.str s) := by
  by_cases hplain : styleOf isKey s = .plain
  · rw [hplain]
    exact .text (plainText_of_styleOf hplain).2.1
  · exact .quoted hplain s

mutual

/-- **A node that was written means its value.** -/
theorem Data.means (d : Data) (h : d.Regular) {depth : Nat} (hdepth : d.height ≤ depth) :
    document.Means limit depth d.node d.value := by
  match d with
  | .str s =>
      rw [Data.node, Data.value]
      exact means_text s depth
  | .int i =>
      rw [Data.Regular] at h
      obtain ⟨i, rfl⟩ := Int.eq_ofNat_of_zero_le h.1
      rw [Data.node, Data.value]
      exact .plain (by rw [Value.ofPlain?, plainValue_nat (n := i) (by omega)])
  | .seq ds =>
      rw [Data.Regular] at h
      rw [Data.height] at hdepth
      obtain ⟨depth, rfl⟩ : ∃ k, depth = k + 1 := ⟨depth - 1, by omega⟩
      rw [Data.node, Data.value]
      exact .sequence (items_mean ds h (by omega))
  | .map es =>
      rw [Data.Regular] at h
      rw [Data.height] at hdepth
      obtain ⟨depth, rfl⟩ : ∃ k, depth = k + 1 := ⟨depth - 1, by omega⟩
      rw [Data.node, Data.value]
      exact .mapping (entries_mean es h.2 (by omega)) (mappingValue?_entryValues h.2)

theorem items_mean (ds : List Data) (h : RegularItems ds) {depth : Nat}
    (hdepth : itemsHeight ds ≤ depth) :
    List.Forall₂ (document.Means limit depth) (itemNodes ds) (itemValues ds) := by
  match ds with
  | [] => exact .nil
  | .map es :: ds =>
      obtain ⟨hentries, hmore⟩ := h
      rw [itemsHeight] at hdepth
      exact .cons ((Data.map es).means hentries (by omega)) (items_mean ds hmore (by omega))

theorem entries_mean (es : List (String × Data)) (h : RegularEntries es) {depth : Nat}
    (hdepth : entriesHeight es ≤ depth) :
    List.Forall₂ (fun e w => document.Means limit depth e.1 w.1 ∧ document.Means limit depth e.2 w.2)
      (entryNodes es) (entryValues es) := by
  match es with
  | [] => exact .nil
  | (key, d) :: es =>
      obtain ⟨hkey, -, hd, hmore⟩ := h
      rw [entriesHeight] at hdepth
      have hname : document.Means limit depth (.scalar none .plain key) (.str key) := by
        rw [← hkey.style]
        exact means_text key depth
      exact .cons ⟨hname, d.means hd (by omega)⟩ (entries_mean es hmore (by omega))

end

end Meaning

/-- **The document of a value means that value.** -/
theorem Data.value?_document {d : Data} (h : d.Regular) (hheight : d.height ≤ maxDepth) :
    d.document.value? = some d.value :=
  Document.Means.value? rfl (d.means h hheight)

section Documents

variable {es : List (String × Data)} (h : (Data.map es).Regular)
  (hheight : (Data.map es).height ≤ maxDepth)

include h hheight

/-- **What was written is read again.** -/
theorem Value.parse?_render : Value.parse? (Data.map es).render = some (Data.map es).value := by
  rw [Value.parse?, Yaml.parse?_render h.1 h.2, Option.bind_some, Data.value?_document h hheight]

/-- It is read again when it is trimmed, unless what is written last ends in a blank that nothing
marks as its own. -/
theorem Value.parse?_trimmed_render (hkeeps : (Data.map es).last.KeepsEnd) :
    Value.parse? (Text.trimmed (Data.map es).render) = some (Data.map es).value := by
  rw [Value.parse?, Yaml.parse?_trimmed_render h.1 h.2 hkeeps, Option.bind_some,
    Data.value?_document h hheight]

end Documents

end BomAssembly.Yaml
