import BomAssembly.Proofs.Json.Extent
import BomAssembly.Proofs.Json.Nodes
import BomAssembly.Proofs.Yaml.Meaning

/-!
# What JSON texts mean as YAML

The node of a JSON text means what the text means as JSON: the same texts, truth values and integers
in the same places (`Written.resolve`). It means nothing if a name stands twice in one object, or if an
integer of more than 64 bits has at most 128 (`Written.isSound`). What a number with a fraction or an
exponent means is left open; it has no tag. `JsonText.isYaml` sums up which texts can be read.
-/

namespace BomAssembly.Json

open Yaml (Document Node Value)

/-! ## Numbers -/

/-- Digits that are all taken into a significand are taken at their value. -/
theorem foldl_of_accumulate {limit : Nat} {cs : List Char} {f g taken : Nat}
    (h : accumulate limit cs f = (g, taken, 0)) (hf : f ≤ limit) :
    cs.foldl (fun n c => n * 10 + digitValue c) f = g ∧ g ≤ limit := by
  induction cs generalizing f taken with
  | nil =>
      obtain ⟨rfl, -⟩ := Prod.mk.inj h
      exact ⟨rfl, hf⟩
  | cons c cs ih =>
      rw [accumulate] at h
      dsimp only at h
      split at h
      · exact absurd (Prod.mk.inj (Prod.mk.inj h).2).2 (by omega)
      · next hfits =>
        rcases hmore : accumulate limit cs (f * 10 + digitValue c) with ⟨g', taken', left⟩
        rw [hmore] at h
        obtain rfl : g' = g := (Prod.mk.inj h).1
        obtain rfl : left = 0 := (Prod.mk.inj (Prod.mk.inj h).2).2
        exact ih hmore (Nat.le_of_not_gt hfits)

/-- What is rounded is no integer. -/
theorem fromParts_ne_int (negative : Bool) (f : Nat) (e i : Int) :
    fromParts negative f e ≠ some (.int i) := by
  intro h
  obtain ⟨x, -, hx⟩ := Option.map_eq_some_iff.mp h
  exact absurd hx (by simp)

/-- The integers that a JSON number can be. -/
theorem int_of_integerValue {negative : Bool} {f : Nat} {i : Int} (hf : f ≤ maxSignificand)
    (h : integerValue negative f = some (.int i)) :
    i = (if negative then -(f : Int) else f) ∧ Yaml.fits 64 i = true := by
  have hmax : maxSignificand + 1 = Nat.pow 2 64 := by decide
  have hhalf : Nat.pow 2 63 = Nat.pow 2 (64 - 1) := rfl
  unfold integerValue at h
  cases negative with
  | false =>
      rw [if_pos (by decide)] at h
      obtain rfl := JsonNumber.int.inj (Option.some.inj h)
      refine ⟨rfl, ?_⟩
      rw [Yaml.fits, decide_eq_true_eq]
      omega
  | true =>
      rw [if_neg (by decide)] at h
      split at h
      · obtain rfl := JsonNumber.int.inj (Option.some.inj h)
        refine ⟨rfl, ?_⟩
        rw [Yaml.fits, decide_eq_true_eq]
        omega
      · exact absurd h (fromParts_ne_int true f 0 i)

/-- **A number without a fraction and an exponent is the same integer.** -/
theorem Literal.integer_of_value? {l : Literal} {i : Int} (h : l.parts.value? = some (.int i)) :
    Yaml.integer? l.text = some i ∧ Yaml.fits 64 i = true := by
  unfold NumberText.value? at h
  rcases hwhole : accumulate maxSignificand l.parts.whole 0 with ⟨f, taken, left⟩
  rw [hwhole] at h
  dsimp only at h
  split at h
  · next hinteger =>
    simp only [Bool.and_eq_true, beq_iff_eq, Option.isNone_iff_eq_none] at hinteger
    obtain ⟨⟨hfraction, hexponent⟩, rfl⟩ := hinteger
    obtain ⟨hvalue, hf⟩ := foldl_of_accumulate hwhole (Nat.zero_le _)
    obtain ⟨rfl, hfits⟩ := int_of_integerValue hf h
    refine ⟨?_, hfits⟩
    have hnofraction : l.fraction = none := by simpa [Literal.parts] using hfraction
    have hnoexponent : l.exponent = none := by simpa [Literal.parts] using hexponent
    have htext : l.text = (if l.negative then ['-'] else []) ++ l.whole.chars := by
      rw [Literal.text, Literal.fractionText, Literal.exponentText, hnofraction, hnoexponent]
      simp
    have hdigits : Number.ofDigits 10 Number.decimalValue l.whole.chars = f := hvalue
    rw [htext, Yaml.integer?_of_digits l.whole.nonempty l.whole.digit l.unpadded, hdigits]
    rfl
  · split at h
    · exact absurd h (fromParts_ne_int _ _ _ i)
    · split at h
      · split at h
        · exact absurd h (by simp)
        · exact absurd (Option.some.inj h) (by simp)
      · exact absurd h (fromParts_ne_int _ _ _ i)

/-! ## Values -/

/-- The value that a word means. -/
def Word.value (w : Word) : Value := (Value.ofPlain? (String.ofList w.text)).getD .null

/-- Whether a word is no integer of more than 64 and at most 128 bits. -/
def Word.isSound : Word → Bool
  | .number l _ _ => (Yaml.integer? l.text).all fun i => !Yaml.fits 128 i || Yaml.fits 64 i
  | _ => true

theorem Word.isSound_eq_false_iff {w : Word} :
    w.isSound = false ↔ Value.ofPlain? (String.ofList w.text) = none := by
  cases w with
  | null => decide
  | bool b => cases b <;> decide
  | number l v hv =>
      rw [Yaml.ofPlain?_eq_none_iff, String.toList_ofList]
      show (Yaml.integer? l.text).all _ = false ↔ ∃ i, Yaml.integer? l.text = some i ∧ _
      cases Yaml.integer? l.text <;> simp

/-- **A word has a value** unless it is an integer that is too long. -/
theorem Word.ofPlain?_eq (w : Word) :
    Value.ofPlain? (String.ofList w.text) = if w.isSound then some w.value else none := by
  cases hsound : w.isSound with
  | false => exact Word.isSound_eq_false_iff.mp hsound
  | true =>
      have hsome : Value.ofPlain? (String.ofList w.text) ≠ none := fun hnone =>
        Bool.noConfusion (hsound.symm.trans (Word.isSound_eq_false_iff.mpr hnone))
      obtain ⟨v, hv⟩ := Option.ne_none_iff_exists'.mp hsome
      rw [if_pos rfl, Word.value, hv]
      rfl

theorem Word.value_of_int {l : Literal} {i : Int} (h : l.parts.value? = some (.int i)) :
    (Word.number l (.int i) h).value = .int i := by
  obtain ⟨hinteger, hfits⟩ := Literal.integer_of_value? h
  have hplain := Yaml.plainValue_of_integer? (s := String.ofList l.text)
    (by rw [String.toList_ofList, hinteger]) (Yaml.fits_wide hfits)
  rw [if_pos hfits] at hplain
  show (Value.ofPlain? (String.ofList l.text)).getD .null = _
  rw [Value.ofPlain?, hplain]
  rfl

mutual

/-- The value that is meant in a stream. -/
def Written.value : Written → Value
  | .string signs => .str (signsString signs)
  | .word w => w.value
  | .array _ items => .seq items.values
  | .object _ members => .map (Yaml.textEntries members.fields)

/-- The values of the items. -/
def WrittenItems.values : WrittenItems → List Value
  | .nil => []
  | .cons _ item _ more => item.value :: more.values

/-- The names and values of the members. -/
def WrittenMembers.fields : WrittenMembers → List (String × Value)
  | .nil => []
  | .cons name value _ more => (name.string, value.value) :: more.fields

end

/-- The names of the members, as often as they are written. -/
def WrittenMembers.names : WrittenMembers → List String
  | .nil => []
  | .cons name _ _ more => name.string :: more.names

theorem WrittenMembers.map_fst_fields (members : WrittenMembers) :
    members.fields.map Prod.fst = members.names := by
  match members with
  | .nil => rfl
  | .cons name value behind more =>
      rw [WrittenMembers.fields, List.map_cons, WrittenMembers.names, more.map_fst_fields]

mutual

/-- Whether no name stands twice in one object and every number has a value. -/
def Written.isSound : Written → Bool
  | .string _ => true
  | .word w => w.isSound
  | .array _ items => items.isSound
  | .object _ members => members.isSound && decide members.names.Nodup

/-- `Written.isSound` for all items. -/
def WrittenItems.isSound : WrittenItems → Bool
  | .nil => true
  | .cons _ item _ more => item.isSound && more.isSound

/-- `Written.isSound` for all values of the members. -/
def WrittenMembers.isSound : WrittenMembers → Bool
  | .nil => true
  | .cons _ value _ more => value.isSound && more.isSound

end

theorem WrittenMembers.mappingValue?_eq (members : WrittenMembers) :
    Yaml.mappingValue? none (Yaml.textEntries members.fields) =
      if members.names.Nodup then some (.map (Yaml.textEntries members.fields)) else none := by
  rw [← members.map_fst_fields]
  split
  · next hnodup => exact Yaml.mappingValue?_textEntries hnodup
  · next hrepeated => exact Yaml.mappingValue?_of_repeated hrepeated

section Resolving

variable {document : Document} {limit : Nat}

mutual

/-- **The node of a value means its value**, if that is sound. -/
theorem Written.resolve (w : Written) {depth : Nat} (hdepth : w.json.height ≤ depth) (jumps : Nat) :
    document.resolve limit depth w.node jumps =
      if w.isSound then some (w.value, jumps) else none := by
  match w with
  | .string signs =>
      rw [Written.node, Document.resolve_scalar]
      rfl
  | .word w =>
      rw [Written.node, Document.resolve_scalar]
      show ((Value.ofPlain? (String.ofList w.text)).bind (Yaml.withTag none)).map _ = _
      rw [w.ofPlain?_eq, Written.isSound]
      cases w.isSound <;> rfl
  | .array space items =>
      have hheight : (Written.array space items).json.height = itemsHeight items.json + 1 := by
        rw [Written.json, height]
      obtain ⟨depth, rfl⟩ : ∃ k, depth = k + 1 := ⟨depth - 1, by omega⟩
      rw [Written.node, Document.resolve_sequence, items.resolve (by omega), Written.isSound]
      cases items.isSound <;> rfl
  | .object space members =>
      have hheight : (Written.object space members).json.height = membersHeight members.json + 1 := by
        rw [Written.json, height]
      obtain ⟨depth, rfl⟩ : ∃ k, depth = k + 1 := ⟨depth - 1, by omega⟩
      rw [Written.node, Document.resolve_mapping, members.resolve (by omega), Written.isSound]
      cases members.isSound with
      | false => rfl
      | true =>
          rw [if_pos rfl, Option.bind_some, members.mappingValue?_eq, Bool.true_and]
          by_cases hnodup : members.names.Nodup
          · simp [hnodup, Written.value]
          · simp [hnodup]

theorem WrittenItems.resolve (items : WrittenItems) {depth : Nat}
    (hdepth : itemsHeight items.json ≤ depth) (jumps : Nat) :
    items.nodes.mapM (document.resolve limit depth) jumps =
      if items.isSound then some (items.values, jumps) else none := by
  match items with
  | .nil => rfl
  | .cons before item behind more =>
      rw [WrittenItems.json, itemsHeight, Nat.max_le] at hdepth
      exact Yaml.mapM_cons_ite (item.resolve hdepth.1 jumps) (more.resolve hdepth.2 jumps)

theorem WrittenMembers.resolve (members : WrittenMembers) {depth : Nat}
    (hdepth : membersHeight members.json ≤ depth) (jumps : Nat) :
    members.nodes.mapM (document.resolveEntry limit depth) jumps =
      if members.isSound then some (Yaml.textEntries members.fields, jumps) else none := by
  match members with
  | .nil => rfl
  | .cons name value behind more =>
      rw [WrittenMembers.json, membersHeight, Nat.max_le] at hdepth
      have hname : document.resolve limit depth (.scalar none .doubleQuoted name.string) jumps =
          some (.str name.string, jumps) := by
        rw [Document.resolve_scalar]
        rfl
      have hentry : document.resolveEntry limit depth
          (.scalar none .doubleQuoted name.string, value.node) jumps =
            if value.isSound then some ((.str name.string, value.value), jumps) else none := by
        rw [Document.resolveEntry_of_key _ _ _ _ hname, value.resolve hdepth.1 jumps]
        cases value.isSound <;> rfl
      exact Yaml.mapM_cons_ite hentry (more.resolve hdepth.2 jumps)

end

end Resolving

mutual

/-- Nothing in a JSON text has a tag. -/
theorem Written.hasTag_value (w : Written) : w.value.hasTag = false := by
  match w with
  | .string signs => rfl
  | .word w =>
      rw [Written.value, Word.value]
      cases hvalue : Value.ofPlain? (String.ofList w.text) with
      | none => rfl
      | some v => exact Yaml.hasTag_of_ofPlain? hvalue
  | .array space items =>
      rw [Written.value, Value.hasTag]
      exact items.anyTag_values
  | .object space members =>
      rw [Written.value, Value.hasTag]
      exact members.anyEntryTag_fields

theorem WrittenItems.anyTag_values (items : WrittenItems) : Value.anyTag items.values = false := by
  match items with
  | .nil => rfl
  | .cons before item behind more =>
      rw [WrittenItems.values, Value.anyTag, item.hasTag_value, more.anyTag_values, Bool.or_false]

theorem WrittenMembers.anyEntryTag_fields (members : WrittenMembers) :
    Value.anyEntryTag (Yaml.textEntries members.fields) = false := by
  match members with
  | .nil => rfl
  | .cons name value behind more =>
      have hmore := more.anyEntryTag_fields
      show (Value.hasTag (.str name.string) || value.value.hasTag ||
        Value.anyEntryTag (Yaml.textEntries more.fields)) = false
      rw [value.hasTag_value, hmore]
      rfl

end

section Documents

/-- Whether a text can be read as YAML: it is a stream of tokens, its names are known as names, and it
has a value. -/
def JsonText.isYaml (t : JsonText) : Bool := t.isStream && t.value.isNear && t.value.isSound

variable {t : JsonText} (h : t.value.isCollection = true) (hflat : ∀ c ∈ t.text, Flat c)
  (hheight : t.value.json.height ≤ Yaml.maxDepth)

include h hflat hheight

/-- **What a JSON text means as YAML.** -/
theorem JsonText.parse?_text : Value.parse? (String.ofList t.text) =
    if t.isYaml then some t.value.value else none := by
  rw [Value.parse?, t.document?_eq h hflat, JsonText.isYaml]
  cases hdocument : t.isStream && t.value.isNear with
  | false => rfl
  | true =>
      show (t.document.resolve t.document.jumpLimit Yaml.maxDepth t.value.node 0).map Prod.fst = _
      rw [t.value.resolve hheight]
      cases t.value.isSound <;> rfl

end Documents

end BomAssembly.Json
