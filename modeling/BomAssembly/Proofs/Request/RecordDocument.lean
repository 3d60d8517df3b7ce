import BomAssembly.Proofs.Request.OperationDocument
import BomAssembly.Proofs.Request.StoredForm

/-!
# Records and their documents

A record is written as a mapping of its name, its data and its labels. Where the keys can stand in front
of their values, and neither data nor labels are empty, the record is read back from its document
(`parse?_render`). The keys of a request's record can, so a request can be kept in a file.
-/

namespace BomAssembly

open Text (StringMap)
open Yaml (Data Document KeyWord fieldOr entryNodes)

/-! ## Maps of texts -/

namespace Yaml

variable {texts : StringMap String}

theorem regularEntries_texts (hkeys : ∀ e ∈ texts.entries, KeyWord e.1) :
    RegularEntries (texts.entries.map fun e => (e.1, Data.str e.2)) := by
  obtain ⟨entries, hsorted⟩ := texts
  induction entries with
  | nil => trivial
  | cons e entries ih =>
      obtain ⟨habove, hmore⟩ := List.pairwise_cons.mp hsorted
      obtain ⟨hkey, hkeys⟩ := List.forall_mem_cons.mp hkeys
      refine ⟨hkey, fun hmem => ?_, trivial, ih hmore hkeys⟩
      rw [List.map_map] at hmem
      obtain ⟨d, hd, heq⟩ := List.mem_map.mp hmem
      exact String.lt_irrefl e.1 (by simpa [← heq] using habove d hd)

theorem Document.textEntries?_ofTexts (document : Document) :
    document.textEntries? (Data.ofTexts texts).node = some texts.entries := by
  have hentries : ∀ l : List (String × String),
      (entryNodes (l.map fun e => (e.1, Data.str e.2))).mapM (fun e =>
        (document.text? e.1).bind fun k => (document.text? e.2).bind fun v => some (k, v))
          = some l := by
    intro l
    induction l with
    | nil => rfl
    | cons e l ih =>
        rw [List.map_cons, entryNodes, List.mapM_cons, ih]
        rfl
  exact hentries texts.entries

end Yaml

/-! ## The document of a record -/

/-- The keys of data and labels begin with letters and stand in front of their values, and there are
some of each. -/
structure Record.Keyed (r : Record) : Prop where
  data : r.data.entries ≠ [] ∧ ∀ e ∈ r.data.entries, KeyWord e.1
  labels : r.labels.entries ≠ [] ∧ ∀ e ∈ r.labels.entries, KeyWord e.1

namespace Record

variable {r : Record}

/-- The entries of the document of a record. -/
def documentEntries (r : Record) : List (String × Data) :=
  [("name", .str r.name), ("data", Data.ofTexts r.data), ("labels", Data.ofTexts r.labels)]

theorem Keyed.regularEntries (h : r.Keyed) : Yaml.RegularEntries r.documentEntries := by
  have hkeys : ∀ k ∈ ["name", "data", "labels"], KeyWord k := by decide
  have htexts : ∀ {m : StringMap String}, m.entries ≠ [] → (∀ e ∈ m.entries, KeyWord e.1) →
      (Data.ofTexts m).Regular := fun hne hwords =>
    ⟨by simpa using hne, Yaml.regularEntries_texts hwords⟩
  exact ⟨hkeys _ (by simp), by simp, trivial,
    hkeys _ (by simp), by simp, htexts h.data.1 h.data.2,
    hkeys _ (by simp), by simp, htexts h.labels.1 h.labels.2, trivial⟩

theorem ofDocument?_toData {document : Document} (h : r.Keyed)
    (htop : document.top = r.toData.node) : ofDocument? document = some r := by
  have hdata : r.toData = .map r.documentEntries := rfl
  rw [ofDocument?, htop, hdata, document.record?_map h.regularEntries]
  show (document.text? (Data.str r.name).node).bind (fun name =>
    (document.textEntries? (Data.ofTexts r.data).node).bind fun data =>
      (document.textEntries? (Data.ofTexts r.labels).node).bind fun labels =>
        some (⟨name, .ofList data, .ofList labels⟩ : Record)) = _
  rw [document.text?_str, document.textEntries?_ofTexts, document.textEntries?_ofTexts]
  have hback : ∀ m : StringMap String, StringMap.ofList m.entries = m :=
    StringMap.foldl_insert_entries
  simp only [Option.bind_some, hback]

/-- **A record is read back from its document.** -/
theorem parse?_render (h : r.Keyed) : parse? r.render = some r := by
  have hparse : Document.parse? r.render = some r.toData.document :=
    Yaml.parse?_render (List.cons_ne_nil _ _) h.regularEntries
  rw [parse?, hparse, Option.bind_some]
  exact ofDocument?_toData h rfl

end Record

/-! ## The record of a request -/

namespace Request

/-- The keys of the records of requests. -/
def recordKeys : List String := ["id", "type", "build-id", "operation-id", "status", "reason",
  "result", "output", "config", "operation-config"]

/-- The names of the labels of requests. -/
def labelNames : List String := ["app.kubernetes.io/part-of", "app.kubernetes.io/component",
  "app.kubernetes.io/managed-by", "sbomer.jboss.org/generation-request-id", "sbomer.jboss.org/type",
  "sbomer.jboss.org/build-id", "sbomer.jboss.org/operation-id", "sbomer.jboss.org/status",
  "sbomer.jboss.org/generation-request"]

theorem keyWord_of_mem {k : String} (h : k ∈ recordKeys ++ labelNames) : KeyWord k := by
  have hkeys : ∀ k ∈ recordKeys ++ labelNames, KeyWord k := by decide
  exact hkeys k h

theorem keyed_toRecord (r : Request) : r.toRecord.Keyed := by
  have hfields : ∀ f ∈ r.recordFields, f.1 ∈ recordKeys := by
    have hkeys : ∀ kind : Kind, ∀ k ∈ ["id", "type", kind.idKey, "status", "reason", "result",
        "output", kind.configKey], k ∈ recordKeys := by
      intro kind
      cases kind <;> decide
    exact fun f hf => hkeys r.kind f.1 (List.mem_map_of_mem (f := Prod.fst) hf)
  have hlabels : ∀ e ∈ r.identityLabels.entries, e.1 ∈ labelNames := by
    have hnames : ∀ kind : Kind, ∀ k ∈ Label.standard.map Prod.fst ++
        [Label.own "generation-request-id", Label.own "type", Label.own kind.idKey],
        k ∈ labelNames := by
      intro kind
      cases kind <;> decide
    intro e he
    exact hnames r.kind e.1 (List.mem_map_of_mem (f := Prod.fst) (StringMap.mem_of_mem_ofList he))
  constructor
  · have hid : r.toRecord.data.get? "id" = some r.id := get?_toRecord (by simp [recordFields])
    refine ⟨fun hnil => ?_, fun e he => ?_⟩
    · exact absurd (StringMap.get?_eq_some_iff.mp hid) (by simp [hnil])
    · obtain ⟨f, hf, hv⟩ := List.mem_filterMap.mp (StringMap.mem_of_mem_ofList he)
      obtain ⟨v, -, rfl⟩ := Option.map_eq_some_iff.mp hv
      exact keyWord_of_mem (List.mem_append_left _ (hfields f hf))
  · have hrequest : r.toRecord.labels.get? (Label.own "generation-request") = some "yes" :=
      StringMap.get?_insert_self
    refine ⟨fun hnil => ?_, fun e he => keyWord_of_mem (List.mem_append_right _ ?_)⟩
    · exact absurd (StringMap.get?_eq_some_iff.mp hrequest) (by simp [hnil])
    · rcases StringMap.mem_insert_iff.mp he with rfl | ⟨he, -⟩
      · show Label.own "generation-request" ∈ labelNames
        decide
      rcases StringMap.mem_insert_iff.mp he with rfl | ⟨he, -⟩
      · show Label.own "status" ∈ labelNames
        decide
      exact hlabels e he

/-- **A request comes back from the document of its record.** -/
theorem Storable.parse?_render {r : Request} (h : r.Storable) :
    (Record.parse? r.toRecord.render).map ofRecord = some (.ok r) := by
  rw [Record.parse?_render r.keyed_toRecord, Option.map_some, h.ofRecord_toRecord]

end Request

end BomAssembly
