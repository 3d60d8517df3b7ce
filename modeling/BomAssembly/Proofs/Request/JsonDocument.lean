import BomAssembly.Proofs.Json.Meaning
import BomAssembly.Proofs.Request.ConfigDocument
import BomAssembly.Proofs.Yaml.Agreement
import Mathlib

/-!
# Configurations in JSON

A configuration may be written in JSON, and it is the reader of YAML that reads it. `ofJsonText?` is
what the text says as JSON. The YAML reader comes to the same configuration or to none (`parse_json`):
where it finds a document, the values of the text agree as `Agrees` tells, which is enough for all that
a configuration is read from. Where it finds none is decided by how the text is written
(`JsonText.isYaml`); a character that is written as the two halves of its number is such a place.
-/

namespace BomAssembly

open Json (Written WrittenItems WrittenMembers Word JsonText Flat readWritten)
open Yaml (Value Agrees FieldAgrees Firm textEntries firm_of_scalar firm_string? firm_stringOrNull?
  firm_list? firm_record required_agree defaulted_agree)

/-! ## What a text says as JSON -/

namespace Json

mutual

/-- A JSON value as the readers of records hold it. -/
def content : Json → Value
  | .null => .null
  | .bool b => .bool b
  | .num (.int i) => .int i
  | .num (.float x) => .float (.finite x)
  | .str s => .str s
  | .arr items => .seq (itemContents items)
  | .obj fields => .map (textEntries (memberContents fields))

/-- `content` of the items. -/
def itemContents : List Json → List Value
  | [] => []
  | v :: vs => v.content :: itemContents vs

/-- `content` of the values of the members. -/
def memberContents : List (String × Json) → List (String × Value)
  | [] => []
  | (name, v) :: fs => (name, v.content) :: memberContents fs

end

end Json

namespace Config

/-- Read what a tag stands for. -/
def ofBody? (tag : String) (body : Value) : Option Config :=
  if tag = Kind.build.tag then (BuildConfig.ofValue? body).map build
  else if tag = Kind.operation.tag then (OperationConfig.ofValue? body).map operation
  else none

/-- The configuration that a JSON value holds. Its tag is a member, which may not be written twice, or
stands in front of the other items of an array. -/
def ofJson? : Json → Option Config
  | .obj fields =>
    let members := Json.memberContents fields
    match members.filter fun f => f.1 = tagName with
    | [(_, .str tag)] => ofBody? tag (.map (textEntries (members.filter fun f => f.1 ≠ tagName)))
    | _ => none
  | .arr (.str tag :: items) => ofBody? tag (.seq (Json.itemContents items))
  | _ => none

/-- The configuration that a JSON text holds. -/
def ofJsonText? (text : String) : Option Config := (readWritten .any text).bind ofJson?

end Config

/-- The parts that a text was read as. -/
def Json.JsonText.Spells (t : JsonText) (text : String) : Prop :=
  t.text = text.toList ∧ readWritten .any text = some t.value.json

/-! ## The two values of a text agree -/

namespace Json

mutual

/-- **A value in a stream differs from the one in JSON in floating point numbers only.** -/
theorem Written.agrees (w : Written) : Agrees w.json.content w.value := by
  match w with
  | .string signs => exact .same _
  | .word .null => exact .same _
  | .word (.bool true) => exact .same _
  | .word (.bool false) => exact .same _
  | .word (.number l (.int i) h) =>
      rw [Written.value, Word.value_of_int h]
      exact .same _
  | .word (.number l (.float x) h) => exact .float _ _
  | .array space items => exact .seq items.agree
  | .object space members => exact .map members.agree

theorem WrittenItems.agree (items : WrittenItems) :
    List.Forall₂ Agrees (itemContents items.json) items.values := by
  match items with
  | .nil => exact .nil
  | .cons before item behind more => exact .cons item.agrees more.agree

theorem WrittenMembers.agree (members : WrittenMembers) :
    List.Forall₂ FieldAgrees (memberContents members.json) members.fields := by
  match members with
  | .nil => exact .nil
  | .cons name value behind more => exact .cons (.of _ value.agrees) more.agree

end

end Json

/-! ## Firm readers of configurations -/

theorem Generator.firm_ofValue? : Firm Generator.ofValue? := by
  refine firm_record ofValue? (fun _ => rfl) fun h hread => ?_
  obtain ⟨tool, htool, hread⟩ := Option.bind_eq_some_iff.mp hread
  obtain ⟨version, hversion, hread⟩ := Option.bind_eq_some_iff.mp hread
  obtain ⟨args, hargs, hread⟩ := Option.bind_eq_some_iff.mp hread
  rw [defaulted_agree h firm_string? htool, defaulted_agree h firm_stringOrNull? hversion,
    defaulted_agree h firm_stringOrNull? hargs]
  exact hread

theorem Product.firm_ofValue? : Firm Product.ofValue? := by
  refine firm_record ofValue? (fun _ => rfl) fun h hread => ?_
  obtain ⟨generator, hgenerator, hread⟩ := Option.bind_eq_some_iff.mp hread
  rw [defaulted_agree h Generator.firm_ofValue? hgenerator]
  exact hread

theorem Deliverable.firm_ofValue? : Firm Deliverable.ofValue? := by
  have hindex : Firm index? := firm_of_scalar (fun _ => rfl) (fun _ => rfl) fun _ => rfl
  refine firm_record ofValue? (fun _ => rfl) fun h hread => ?_
  obtain ⟨index, hi, hread⟩ := Option.bind_eq_some_iff.mp hread
  obtain ⟨url, hurl, hread⟩ := Option.bind_eq_some_iff.mp hread
  obtain ⟨pom, hpom, hread⟩ := Option.bind_eq_some_iff.mp hread
  rw [required_agree h hindex hi, required_agree h firm_string? hurl,
    defaulted_agree h firm_stringOrNull? hpom]
  exact hread

theorem BuildConfig.firm_ofValue? : Firm BuildConfig.ofValue? := by
  refine firm_record ofValue? (fun _ => rfl) fun h hread => ?_
  obtain ⟨buildId, hid, hread⟩ := Option.bind_eq_some_iff.mp hread
  obtain ⟨products, hproducts, hread⟩ := Option.bind_eq_some_iff.mp hread
  rw [required_agree h firm_string? hid,
    defaulted_agree h (firm_list? Product.firm_ofValue?) hproducts]
  exact hread

theorem OperationConfig.firm_ofValue? : Firm OperationConfig.ofValue? := by
  refine firm_record ofValue? (fun _ => rfl) fun h hread => ?_
  obtain ⟨operationId, hid, hread⟩ := Option.bind_eq_some_iff.mp hread
  obtain ⟨product, hproduct, hread⟩ := Option.bind_eq_some_iff.mp hread
  obtain ⟨deliverables, hdeliverables, hread⟩ := Option.bind_eq_some_iff.mp hread
  rw [required_agree h firm_string? hid, defaulted_agree h Product.firm_ofValue? hproduct,
    defaulted_agree h (firm_list? Deliverable.firm_ofValue?) hdeliverables]
  exact hread

namespace Config

theorem firm_ofBody? (tag : String) : Firm (ofBody? tag) := by
  refine ⟨fun h hread => ?_⟩
  unfold ofBody? at hread ⊢
  split
  · next hbuild =>
    rw [if_pos hbuild] at hread
    obtain ⟨b, hb, rfl⟩ := Option.map_eq_some_iff.mp hread
    rw [BuildConfig.firm_ofValue?.keeps h hb, Option.map_some]
  · next hbuild =>
    rw [if_neg hbuild] at hread
    split
    · next hoperation =>
      rw [if_pos hoperation] at hread
      obtain ⟨o, ho, rfl⟩ := Option.map_eq_some_iff.mp hread
      rw [OperationConfig.firm_ofValue?.keeps h ho, Option.map_some]
    · next hoperation =>
      rw [if_neg hoperation] at hread
      exact hread

/-! ## Documents with a tag -/

/-- The only tag among fields decides what the others are read as. -/
theorem ofEntries?_textEntries {fields : List (String × Value)} {name tag : String}
    (htag : (fields.filter fun f => f.1 = tagName) = [(name, .str tag)])
    (hplain : (Value.map (textEntries fields)).hasTag = false) :
    ofEntries? (textEntries fields) =
      ofBody? tag (.map (textEntries (fields.filter fun f => f.1 ≠ tagName))) := by
  have hsame : ∀ f : String × Value, Value.same (.str f.1) (.str tagName) = decide (f.1 = tagName) :=
    fun f => by rw [Value.same, Bool.beq_eq_decide_eq]
  have hfound : tag? (textEntries fields) = some (.str tag) := by
    have hfirst : fields.find? (fun f => f.1 = tagName) = some (name, .str tag) := by
      rw [← List.head?_filter, htag]
      rfl
    rw [tag?, textEntries, List.find?_map]
    simp only [Function.comp_def, hsame, hfirst]
    rfl
  have hothers : untaggedEntries (textEntries fields) =
      textEntries (fields.filter fun f => f.1 ≠ tagName) := by
    rw [untaggedEntries, textEntries, List.filter_map]
    simp only [Function.comp_def, hsame, decide_not]
    rfl
  have hbody : (Value.map (textEntries (fields.filter fun f => f.1 ≠ tagName))).hasTag = false := by
    rw [Yaml.hasTag_textEntries, List.any_eq_false] at hplain ⊢
    exact fun f hf => hplain f (List.mem_of_mem_filter hf)
  rw [ofEntries?, hfound, hothers]
  dsimp only [Option.bind_eq_bind, Option.bind_some, Value.untagged, Value.string?]
  rw [hbody]
  rfl

/-- A document with a tag is read as its entries are. -/
theorem ofValue_of_entries {entries : List (Value × Value)} {c : Config} (kind : Kind)
    (h : ofEntries? entries = some c) : ofValue kind (.map entries) = .ok c := by
  have htag : (tag? entries).isSome = true := by
    unfold ofEntries? at h
    obtain ⟨tag, htag, -⟩ := Option.bind_eq_some_iff.mp h
    obtain ⟨v, hv, -⟩ := Option.bind_eq_some_iff.mp htag
    rw [hv]
    rfl
  rw [ofValue]
  dsimp only [Value.untagged]
  rw [if_pos htag, h]

/-- **An object is read as the same configuration in a stream.** -/
theorem ofValue_of_ofJson? {space : Json.Space} {members : WrittenMembers} {c : Config} (kind : Kind)
    (h : ofJson? (Written.object space members).json = some c) :
    ofValue kind (Written.object space members).value = .ok c := by
  have hagree := members.agree
  have hplain := (Written.object space members).hasTag_value
  rw [Written.value] at hplain ⊢
  rw [Written.json, ofJson?] at h
  split at h
  · next name tag htag =>
    have hothers := Yaml.filter_agree hagree fun name => decide (name ≠ tagName)
    have hfirst := Yaml.filter_agree hagree fun name => decide (name = tagName)
    rw [htag] at hfirst
    -- the other tag is the same text
    have htag' : ∃ name', (members.fields.filter fun f => f.1 = tagName) = [(name', .str tag)] := by
      cases hmembers : members.fields.filter fun f => f.1 = tagName with
      | nil =>
          rw [hmembers] at hfirst
          cases hfirst
      | cons f more =>
          rw [hmembers] at hfirst
          obtain ⟨hfield, hmore⟩ := List.forall₂_cons.mp hfirst
          obtain rfl := List.forall₂_nil_left_iff.mp hmore
          exact ⟨f.1, by rw [← hfield.snd.eq_of_str]⟩
    obtain ⟨name', htag'⟩ := htag'
    refine ofValue_of_entries kind ?_
    rw [ofEntries?_textEntries htag' hplain]
    exact (firm_ofBody? tag).keeps (.map hothers) h
  · exact absurd h (by simp)

/-- An array is no mapping. -/
theorem ofValue_array (kind : Kind) (space : Json.Space) (items : WrittenItems) :
    ofValue kind (Written.array space items).value =
      .error (.configuration "configuration must be a mapping") := by
  rw [Written.value]
  rfl

/-- Only an array or an object holds a configuration. -/
theorem isCollection_of_ofJson? {w : Written} {c : Config} (h : ofJson? w.json = some c) :
    w.isCollection = true := by
  cases w with
  | string signs => exact absurd h (by simp [Written.json, ofJson?])
  | word w => cases w <;> exact absurd h (by simp [Written.json, Word.json, ofJson?])
  | array | object => rfl

section Reading

variable {text correlationId : String} {kind : Kind} {c : Config}

/-- **A configuration in JSON is read as what it says, or not at all**, whatever its strings, its numbers
and the white space between its parts are: it is read if the text can be read as YAML and is an object.
No character of it may end a line in YAML only. -/
theorem parse_json (hread : ofJsonText? text = some c) (hcheck : c.check kind correlationId = .ok ())
    (hflat : ∀ d ∈ text.toList, Flat d) :
    (∃ t : JsonText, t.Spells text) ∧ ∀ t : JsonText, t.Spells text →
      parse text kind correlationId =
        if t.isYaml then
          if t.value.isObject then .ok c
          else .error (.configuration "configuration must be a mapping")
        else .error unparseable := by
  obtain ⟨v, hv, hconfig⟩ := Option.bind_eq_some_iff.mp hread
  refine ⟨?_, fun t ht => ?_⟩
  · obtain ⟨t, htext, rfl⟩ := Json.exists_written hv
    exact ⟨t, htext, hv⟩
  · obtain rfl := Option.some.inj (hv.symm.trans ht.2)
    have hheight : t.value.json.height ≤ Yaml.maxDepth :=
      Nat.le_trans (Json.height_le_of_readWritten hv) (by decide)
    have hvalue := t.parse?_text (isCollection_of_ofJson? hconfig) (ht.1 ▸ hflat) hheight
    rw [ht.1, String.ofList_toList] at hvalue
    cases hyaml : t.isYaml with
    | false =>
        rw [hyaml] at hvalue
        rw [parse, hvalue]
        rfl
    | true =>
        rw [hyaml, if_pos rfl] at hvalue
        cases hw : t.value with
        | string | word =>
            rw [hw] at hconfig
            exact Bool.noConfusion (isCollection_of_ofJson? hconfig)
        | array space items =>
            rw [hw] at hvalue
            rw [parse, hvalue]
            dsimp only
            rw [ofValue_array]
            rfl
        | object space members =>
            rw [hw] at hvalue hconfig
            exact parse_of_value hvalue (ofValue_of_ofJson? kind hconfig) hcheck

end Reading

/-- Characters that are written as they are. -/
def bareSigns (s : String)
    (h : (s.toList.all fun c => decide (0x20 ≤ c.toNat ∧ c ≠ '"' ∧ c ≠ '\\')) = true) :
    List Json.Sign :=
  s.toList.pmap .bare fun c hc => of_decide_eq_true (List.all_eq_true.mp h c hc)

/-- A build with an escape in its name, over several lines. -/
def escapedText : JsonText where
  before := .none
  value := .object .none <|
    .cons ⟨.none, bareSigns "type" (by decide), .none, ⟨[' '], List.all_eq_true.mp rfl⟩⟩
      (.string (bareSigns "build" (by decide))) .none <|
    .cons ⟨⟨['\n', '\t'], List.all_eq_true.mp rfl⟩, bareSigns "buildId" (by decide), .none, .none⟩
      (.string [.bare 'b' (by decide), .code '0' '0' 'e' '9' 0xe9 (by decide)])
      ⟨['\n'], List.all_eq_true.mp rfl⟩ .nil
  behind := .none

/-- The same, as one text. -/
def escapedSource : String :=
  "\x7b\"type\": \"build\",\n\t\"buildId\":\"b\\u00e9\"\n\x7d"

theorem parse_json_escaped :
    ofJsonText? escapedSource = some (build ⟨"bé", []⟩) ∧
      check .build "bé" (build ⟨"bé", []⟩) = .ok () ∧
      (∀ d ∈ escapedSource.toList, Flat d) ∧ escapedText.Spells escapedSource ∧
      parse escapedSource .build "bé" = .ok (build ⟨"bé", []⟩) := by
  have hread : ofJsonText? escapedSource = some (build ⟨"bé", []⟩) := by decide +kernel
  have hcheck : check .build "bé" (build ⟨"bé", []⟩) = .ok () := by decide
  have hspells : escapedText.Spells escapedSource := ⟨by decide, by cbv⟩
  have hflat : ∀ d ∈ escapedSource.toList, Flat d := by
    have hall : (escapedSource.toList.all fun d => decide (Flat d)) = true := by decide
    exact fun d hd => of_decide_eq_true (List.all_eq_true.mp hall d hd)
  have hyaml : escapedText.isYaml = true := by decide +kernel
  have hparse := (parse_json hread hcheck hflat).2 escapedText hspells
  rw [hyaml] at hparse
  exact ⟨hread, hcheck, hflat, hspells, hparse⟩

/-- **A pair is refused**, though the text says a configuration that fits the request. -/
theorem not_parse_json_pair :
    ofJsonText? "\x7b\"type\":\"build\",\"buildId\":\"\\ud83d\\ude00\"\x7d" =
        some (build ⟨"😀", []⟩) ∧
      check .build "😀" (build ⟨"😀", []⟩) = .ok () ∧
      parse "\x7b\"type\":\"build\",\"buildId\":\"\\ud83d\\ude00\"\x7d" .build "😀" =
        .error unparseable := by
  refine ⟨?_, ?_, ?_⟩
  all_goals decide +kernel

end Config

end BomAssembly
