import BomAssembly.Bom.Document
import BomAssembly.Proofs.Json.Record

/-!
# Bills of materials are read back from their JSON

For each record: the object that it is read from (`ReadFrom`), its known fields as they are written
(`known`), and what a record has to be for its JSON to be read back (`Clean`): what it carries along is
left over from an object, and fits.

* What was read is clean (`clean_of_ofJson?`).
* A clean record is read back (`ofJson?_toJson`), and its JSON fits (`fits_toJson`).

The depth of a link or a named value is that of its fields. It is the smallest one; the depths of the
records around it are counted from there.
-/

namespace BomAssembly

open Json (Carried Fields Known arr_ne_null carried_leftOver defaulted defaulted_of_once
  defaulted_string exists_of_defaulted_list? exists_of_optional_list? field_eq fits_arr_map
  fits_map fits_nat fits_obj_iff fits_some fits_str fits_written leftOver leftOver_written list?
  list?_arr natBelow? natBelow?_lt natBelow?_nat obj_ne_null obj_of_fields? of_optional once
  once_written once_written_self optional optional_of_once optional_string required
  required_string settled_of_optional string? written written_append)

namespace ExternalReference

/-- The link that these fields hold. -/
structure ReadFrom (fs : Fields) (r : ExternalReference) : Prop where
  kind : required string? ["type"] fs = some r.kind
  url : required string? ["url"] fs = some r.url
  comment : optional string? ["comment"] fs = some r.comment
  extra : leftOver names fs = r.extra

theorem ofJson?_eq_some_iff {v : Json} {r : ExternalReference} :
    ofJson? v = some r ↔ ∃ fs, v = .obj fs ∧ ReadFrom fs r := by
  constructor
  · intro h
    obtain ⟨fs, hfs, h⟩ := Option.bind_eq_some_iff.mp h
    obtain ⟨kind, hkind, h⟩ := Option.bind_eq_some_iff.mp h
    obtain ⟨url, hurl, h⟩ := Option.bind_eq_some_iff.mp h
    obtain ⟨comment, hcomment, h⟩ := Option.bind_eq_some_iff.mp h
    obtain rfl := Option.some.inj h
    exact ⟨fs, obj_of_fields? hfs, hkind, hurl, hcomment, rfl⟩
  · rintro ⟨fs, rfl, h⟩
    rw [ofJson?, Json.fields?, bind_of_eq rfl, bind_of_eq h.kind, bind_of_eq h.url,
      bind_of_eq h.comment, h.extra]
    rfl

/-- The known fields as they are written. -/
def known (r : ExternalReference) : List (String × Option Json) :=
  [("type", some (.str r.kind)), ("url", some (.str r.url)), ("comment", r.comment.map .str)]

theorem knows (r : ExternalReference) : Known names r.known :=
  ⟨by simp [known], by simp [known, names]⟩

theorem toJson_eq (r : ExternalReference) : r.toJson = .obj (written r.known ++ r.extra) := by
  rw [toJson, field_eq]
  rfl

/-- What is carried along is left over from something that fits. -/
def Clean (d : Nat) (r : ExternalReference) : Prop := Carried names d r.extra

variable {d : Nat} {v : Json} {r : ExternalReference}

theorem clean_of_ofJson? (h : ofJson? v = some r) (hv : v.Fits (d + 1)) : r.Clean d := by
  obtain ⟨fs, rfl, hread⟩ := ofJson?_eq_some_iff.mp h
  rw [Clean, ← hread.extra]
  exact carried_leftOver (fits_obj_iff.mp hv) names

theorem once_known (h : r.Clean d) {n : String} {o : Option Json} (hmem : (n, o) ∈ r.known) :
    once [n] (written r.known ++ r.extra) = some o :=
  once_written_self h (knows r) hmem

theorem readFrom_written (h : r.Clean d) : ReadFrom (written r.known ++ r.extra) r where
  kind := required_string (once_known h (by simp [known]))
  url := required_string (once_known h (by simp [known]))
  comment := optional_string (once_known h (by simp [known]))
  extra := leftOver_written h (knows _)

theorem ofJson?_toJson (h : r.Clean d) : ofJson? r.toJson = some r :=
  ofJson?_eq_some_iff.mpr ⟨_, toJson_eq r, readFrom_written h⟩

theorem fits_toJson (h : r.Clean d) : r.toJson.Fits (d + 1) := by
  rw [toJson_eq]
  refine fits_written h ?_
  simp only [known, List.forall_mem_cons]
  exact ⟨fits_some (fits_str d r.kind), fits_some (fits_str d r.url),
    fits_map fun s _ => fits_str d s, nofun⟩

end ExternalReference

namespace Property

/-- The named value that these fields hold. -/
structure ReadFrom (fs : Fields) (p : Property) : Prop where
  name : required string? ["name"] fs = some p.name
  value : defaulted "" string? ["value"] fs = some p.value
  extra : leftOver ["name", "value"] fs = p.extra

theorem ofJson?_eq_some_iff {v : Json} {p : Property} :
    ofJson? v = some p ↔ ∃ fs, v = .obj fs ∧ ReadFrom fs p := by
  constructor
  · intro h
    obtain ⟨fs, hfs, h⟩ := Option.bind_eq_some_iff.mp h
    obtain ⟨name, hname, h⟩ := Option.bind_eq_some_iff.mp h
    obtain ⟨value, hvalue, h⟩ := Option.bind_eq_some_iff.mp h
    obtain rfl := Option.some.inj h
    exact ⟨fs, obj_of_fields? hfs, hname, hvalue, rfl⟩
  · rintro ⟨fs, rfl, h⟩
    rw [ofJson?, Json.fields?, bind_of_eq rfl, bind_of_eq h.name, bind_of_eq h.value, h.extra]
    rfl

/-- The known fields as they are written. -/
def known (p : Property) : List (String × Option Json) :=
  [("name", some (.str p.name)), ("value", some (.str p.value))]

theorem knows (p : Property) : Known ["name", "value"] p.known :=
  ⟨by simp [known], by simp [known]⟩

theorem toJson_eq (p : Property) : p.toJson = .obj (written p.known ++ p.extra) := rfl

/-- What is carried along is left over from something that fits. -/
def Clean (d : Nat) (p : Property) : Prop := Carried ["name", "value"] d p.extra

variable {d : Nat} {v : Json} {p : Property}

theorem clean_of_ofJson? (h : ofJson? v = some p) (hv : v.Fits (d + 1)) : p.Clean d := by
  obtain ⟨fs, rfl, hread⟩ := ofJson?_eq_some_iff.mp h
  rw [Clean, ← hread.extra]
  exact carried_leftOver (fits_obj_iff.mp hv) _

theorem once_known (h : p.Clean d) {n : String} {o : Option Json} (hmem : (n, o) ∈ p.known) :
    once [n] (written p.known ++ p.extra) = some o :=
  once_written_self h (knows p) hmem

theorem readFrom_written (h : p.Clean d) : ReadFrom (written p.known ++ p.extra) p where
  name := required_string (once_known h (by simp [known]))
  value := defaulted_string (once_known h (by simp [known]))
  extra := leftOver_written h (knows _)

theorem ofJson?_toJson (h : p.Clean d) : ofJson? p.toJson = some p :=
  ofJson?_eq_some_iff.mpr ⟨_, toJson_eq p, readFrom_written h⟩

theorem fits_toJson (h : p.Clean d) : p.toJson.Fits (d + 1) := by
  rw [toJson_eq]
  refine fits_written h ?_
  simp only [known, List.forall_mem_cons]
  exact ⟨fits_some (fits_str d p.name), fits_some (fits_str d p.value), nofun⟩

end Property

namespace Component

/-- The component that these fields hold. -/
structure ReadFrom (fs : Fields) (c : Component) : Prop where
  kind : defaulted defaultKind string? ["type"] fs = some c.kind
  bomRef : optional string? ["bom-ref", "bomRef"] fs = some c.bomRef
  author : optional string? ["author"] fs = some c.author
  publisher : optional string? ["publisher"] fs = some c.publisher
  group : optional string? ["group"] fs = some c.group
  name : defaulted "" string? ["name"] fs = some c.name
  version : optional string? ["version"] fs = some c.version
  description : optional string? ["description"] fs = some c.description
  scope : optional string? ["scope"] fs = some c.scope
  hashes : optional (list? fun v => some v.merged) ["hashes"] fs = some c.hashes
  licenses : optional (list? fun v => some v.merged) ["licenses"] fs = some c.licenses
  purl : optional string? ["purl"] fs = some c.purl
  externalReferences :
    optional (list? ExternalReference.ofJson?) ["externalReferences"] fs = some c.externalReferences
  properties : optional (list? Property.ofJson?) ["properties"] fs = some c.properties
  extra : leftOver names fs = c.extra

theorem ofJson?_eq_some_iff {v : Json} {c : Component} :
    ofJson? v = some c ↔ ∃ fs, v = .obj fs ∧ ReadFrom fs c := by
  constructor
  · intro h
    obtain ⟨fs, hfs, h⟩ := Option.bind_eq_some_iff.mp h
    obtain ⟨kind, hkind, h⟩ := Option.bind_eq_some_iff.mp h
    obtain ⟨bomRef, hbomRef, h⟩ := Option.bind_eq_some_iff.mp h
    obtain ⟨author, hauthor, h⟩ := Option.bind_eq_some_iff.mp h
    obtain ⟨publisher, hpublisher, h⟩ := Option.bind_eq_some_iff.mp h
    obtain ⟨group, hgroup, h⟩ := Option.bind_eq_some_iff.mp h
    obtain ⟨name, hname, h⟩ := Option.bind_eq_some_iff.mp h
    obtain ⟨version, hversion, h⟩ := Option.bind_eq_some_iff.mp h
    obtain ⟨description, hdescription, h⟩ := Option.bind_eq_some_iff.mp h
    obtain ⟨scope, hscope, h⟩ := Option.bind_eq_some_iff.mp h
    obtain ⟨hashes, hhashes, h⟩ := Option.bind_eq_some_iff.mp h
    obtain ⟨licenses, hlicenses, h⟩ := Option.bind_eq_some_iff.mp h
    obtain ⟨purl, hpurl, h⟩ := Option.bind_eq_some_iff.mp h
    obtain ⟨references, hreferences, h⟩ := Option.bind_eq_some_iff.mp h
    obtain ⟨properties, hproperties, h⟩ := Option.bind_eq_some_iff.mp h
    obtain rfl := Option.some.inj h
    exact ⟨fs, obj_of_fields? hfs, hkind, hbomRef, hauthor, hpublisher, hgroup, hname, hversion,
      hdescription, hscope, hhashes, hlicenses, hpurl, hreferences, hproperties, rfl⟩
  · rintro ⟨fs, rfl, h⟩
    rw [ofJson?, Json.fields?, bind_of_eq rfl, bind_of_eq h.kind, bind_of_eq h.bomRef,
      bind_of_eq h.author, bind_of_eq h.publisher, bind_of_eq h.group, bind_of_eq h.name,
      bind_of_eq h.version, bind_of_eq h.description, bind_of_eq h.scope, bind_of_eq h.hashes,
      bind_of_eq h.licenses, bind_of_eq h.purl, bind_of_eq h.externalReferences,
      bind_of_eq h.properties, h.extra]
    rfl

/-- The known fields as they are written. -/
def known (c : Component) : List (String × Option Json) := [
  ("type", some (.str c.kind)), ("bom-ref", c.bomRef.map .str), ("author", c.author.map .str),
  ("publisher", c.publisher.map .str), ("group", c.group.map .str), ("name", some (.str c.name)),
  ("version", c.version.map .str), ("description", c.description.map .str),
  ("scope", c.scope.map .str), ("hashes", c.hashes.map .arr), ("licenses", c.licenses.map .arr),
  ("purl", c.purl.map .str),
  ("externalReferences", c.externalReferences.map fun rs => .arr (rs.map ExternalReference.toJson)),
  ("properties", c.properties.map fun ps => .arr (ps.map Property.toJson))]

theorem knows (c : Component) : Known names c.known :=
  ⟨by simp [known], by simp [known, names]⟩

theorem toJson_eq (c : Component) : c.toJson = .obj (written c.known ++ c.extra) := by
  have hkind : [("type", Json.str c.kind)] = written [("type", some (.str c.kind))] := rfl
  have hname : [("name", Json.str c.name)] = written [("name", some (.str c.name))] := rfl
  rw [toJson, hkind, hname]
  simp only [field_eq, ← written_append]
  rfl

theorem toJson_ne_null (c : Component) : c.toJson ≠ .null := obj_ne_null _

/-- What is carried along, at all depths, is left over from something that fits. -/
structure Clean (d : Nat) (c : Component) : Prop where
  hashes : Json.Settled (d + 1) c.hashes
  licenses : Json.Settled (d + 1) c.licenses
  externalReferences : ∀ rs ∈ c.externalReferences, ∀ r ∈ rs, r.Clean d
  properties : ∀ ps ∈ c.properties, ∀ p ∈ ps, p.Clean d
  extra : Carried names (d + 2) c.extra

variable {d : Nat} {v : Json} {c : Component}

theorem clean_of_ofJson? (h : ofJson? v = some c) (hv : v.Fits (d + 3)) : c.Clean d := by
  obtain ⟨fs, rfl, hread⟩ := ofJson?_eq_some_iff.mp h
  have hfits := fits_obj_iff.mp hv
  refine ⟨settled_of_optional hread.hashes hfits, settled_of_optional hread.licenses hfits,
    ?_, ?_, ?_⟩
  · intro rs hrs r hr
    obtain ⟨w, hw, heq⟩ := exists_of_optional_list? hread.externalReferences hfits rs hrs r hr
    exact ExternalReference.clean_of_ofJson? heq hw
  · intro ps hps p hp
    obtain ⟨w, hw, heq⟩ := exists_of_optional_list? hread.properties hfits ps hps p hp
    exact Property.clean_of_ofJson? heq hw
  · rw [← hread.extra]
    exact carried_leftOver hfits names

theorem once_known (h : c.Clean d) {n : String} {o : Option Json} (hmem : (n, o) ∈ c.known) :
    once [n] (written c.known ++ c.extra) = some o :=
  once_written_self h.extra (knows c) hmem

theorem readFrom_written (h : c.Clean d) : ReadFrom (written c.known ++ c.extra) c where
  kind := defaulted_string (once_known h (by simp [known]))
  bomRef := optional_string
    (once_written h.extra (knows c) (n := "bom-ref") (by simp [known]) (by simp) (by simp [names])
      (by simp [known]))
  author := optional_string (once_known h (by simp [known]))
  publisher := optional_string (once_known h (by simp [known]))
  group := optional_string (once_known h (by simp [known]))
  name := defaulted_string (once_known h (by simp [known]))
  version := optional_string (once_known h (by simp [known]))
  description := optional_string (once_known h (by simp [known]))
  scope := optional_string (once_known h (by simp [known]))
  hashes := h.hashes.optional (once_known h (by simp [known]))
  licenses := h.licenses.optional (once_known h (by simp [known]))
  purl := optional_string (once_known h (by simp [known]))
  externalReferences := optional_of_once (once_known h (by simp [known]))
    (fun rs hrs => list?_arr fun r hr =>
      ExternalReference.ofJson?_toJson (h.externalReferences rs hrs r hr))
    fun _ => arr_ne_null _
  properties := optional_of_once (once_known h (by simp [known]))
    (fun ps hps => list?_arr fun p hp => Property.ofJson?_toJson (h.properties ps hps p hp))
    fun _ => arr_ne_null _
  extra := leftOver_written h.extra (knows _)

theorem ofJson?_toJson (h : c.Clean d) : ofJson? c.toJson = some c :=
  ofJson?_eq_some_iff.mpr ⟨_, toJson_eq c, readFrom_written h⟩

theorem fits_toJson (h : c.Clean d) : c.toJson.Fits (d + 3) := by
  have hreferences : ∀ rs ∈ c.externalReferences,
      (Json.arr (rs.map ExternalReference.toJson)).Fits (d + 2) := fun rs hrs =>
    fits_arr_map fun r hr => ExternalReference.fits_toJson (h.externalReferences rs hrs r hr)
  have hproperties : ∀ ps ∈ c.properties, (Json.arr (ps.map Property.toJson)).Fits (d + 2) :=
    fun ps hps => fits_arr_map fun p hp => Property.fits_toJson (h.properties ps hps p hp)
  have htext : ∀ o : Option String, ∀ v ∈ o.map Json.str, v.Fits (d + 2) := fun o =>
    fits_map fun s _ => fits_str (d + 2) s
  rw [toJson_eq]
  refine fits_written h.extra ?_
  simp only [known, List.forall_mem_cons]
  exact ⟨fits_some (fits_str _ c.kind), htext c.bomRef, htext c.author, htext c.publisher,
    htext c.group, fits_some (fits_str _ c.name), htext c.version, htext c.description,
    htext c.scope, h.hashes.fits, h.licenses.fits, htext c.purl, fits_map hreferences,
    fits_map hproperties, nofun⟩

/-! The identifier goes by either of two names, and it makes no difference by which. -/

/-- The one name of the identifier, for either of its names; any other name is itself. -/
def ownName (name : String) : String := if name = "bomRef" then "bom-ref" else name

theorem ownName_mem_iff {names : List String} (h : "bom-ref" ∈ names ↔ "bomRef" ∈ names)
    (k : String) : ownName k ∈ names ↔ k ∈ names := by
  rw [ownName]
  by_cases hk : k = "bomRef"
  · rw [if_pos hk, hk, h]
  · rw [if_neg hk]

/-- The fields of a component with its identifier under its own name. -/
def named (fs : Fields) : Fields := fs.map fun f => (ownName f.1, f.2)

section Named

variable {α : Type} {names : List String} (h : "bom-ref" ∈ names ↔ "bomRef" ∈ names)
  (read : Json → Option α) (fs : Fields)

include h

theorem once_named : once names (named fs) = once names fs :=
  Json.once_renamed (ownName_mem_iff h) fs

theorem defaulted_named (value : α) :
    defaulted value read names (named fs) = defaulted value read names fs := by
  rw [defaulted, once_named h, defaulted]

theorem optional_named : optional read names (named fs) = optional read names fs :=
  defaulted_named h (Json.nullable read) fs none

end Named

theorem leftOver_named (fs : Fields) : leftOver names (named fs) = leftOver names fs := by
  refine Json.leftOver_renamed (ownName_mem_iff (by simp [names])) fs fun k hk =>
    if_neg fun heq => hk ?_
  rw [heq]
  simp [names]

/-- **The identifier may go by either of its names.** -/
theorem ofJson?_named (fs : Fields) : ofJson? (.obj (named fs)) = ofJson? (.obj fs) := by
  rw [ofJson?, ofJson?, Json.fields?, Json.fields?, bind_of_eq rfl, bind_of_eq rfl]
  simp (disch := simp) only [optional_named, defaulted_named, leftOver_named]

end Component

namespace Dependency

/-- The entry that these fields hold. -/
structure ReadFrom (fs : Fields) (e : Dependency) : Prop where
  ref : required string? ["ref"] fs = some e.ref
  dependsOn : defaulted [] (list? string?) ["dependsOn"] fs = some e.dependsOn
  extra : leftOver ["ref", "dependsOn"] fs = e.extra

theorem ofJson?_eq_some_iff {v : Json} {e : Dependency} :
    ofJson? v = some e ↔ ∃ fs, v = .obj fs ∧ ReadFrom fs e := by
  constructor
  · intro h
    obtain ⟨fs, hfs, h⟩ := Option.bind_eq_some_iff.mp h
    obtain ⟨ref, href, h⟩ := Option.bind_eq_some_iff.mp h
    obtain ⟨dependsOn, hdependsOn, h⟩ := Option.bind_eq_some_iff.mp h
    obtain rfl := Option.some.inj h
    exact ⟨fs, obj_of_fields? hfs, href, hdependsOn, rfl⟩
  · rintro ⟨fs, rfl, h⟩
    rw [ofJson?, Json.fields?, bind_of_eq rfl, bind_of_eq h.ref, bind_of_eq h.dependsOn, h.extra]
    rfl

/-- The known fields as they are written. -/
def known (e : Dependency) : List (String × Option Json) :=
  [("ref", some (.str e.ref)), ("dependsOn", some (.arr (e.dependsOn.map .str)))]

theorem knows (e : Dependency) : Known ["ref", "dependsOn"] e.known :=
  ⟨by simp [known], by simp [known]⟩

theorem toJson_eq (e : Dependency) : e.toJson = .obj (written e.known ++ e.extra) := rfl

/-- What is carried along is left over from something that fits. -/
def Clean (d : Nat) (e : Dependency) : Prop := Carried ["ref", "dependsOn"] (d + 2) e.extra

variable {d : Nat} {v : Json} {e : Dependency}

theorem clean_of_ofJson? (h : ofJson? v = some e) (hv : v.Fits (d + 3)) : e.Clean d := by
  obtain ⟨fs, rfl, hread⟩ := ofJson?_eq_some_iff.mp h
  rw [Clean, ← hread.extra]
  exact carried_leftOver (fits_obj_iff.mp hv) _

theorem once_known (h : e.Clean d) {n : String} {o : Option Json} (hmem : (n, o) ∈ e.known) :
    once [n] (written e.known ++ e.extra) = some o :=
  once_written_self h (knows e) hmem

theorem readFrom_written (h : e.Clean d) : ReadFrom (written e.known ++ e.extra) e where
  ref := required_string (once_known h (by simp [known]))
  dependsOn := defaulted_of_once (once_known h (by simp [known]))
    (list?_arr fun s _ => (rfl : string? (.str s) = some s))
  extra := leftOver_written h (knows _)

theorem ofJson?_toJson (h : e.Clean d) : ofJson? e.toJson = some e :=
  ofJson?_eq_some_iff.mpr ⟨_, toJson_eq e, readFrom_written h⟩

theorem fits_toJson (h : e.Clean d) : e.toJson.Fits (d + 3) := by
  rw [toJson_eq]
  refine fits_written h ?_
  simp only [known, List.forall_mem_cons]
  exact ⟨fits_some (fits_str _ e.ref), fits_some (fits_arr_map fun s _ => fits_str _ s), nofun⟩

end Dependency

namespace Metadata

/-- What these fields say about a document. -/
structure ReadFrom (fs : Fields) (m : Metadata) : Prop where
  component : optional Component.ofJson? ["component"] fs = some m.component
  extra : leftOver ["component"] fs = m.extra

theorem ofJson?_eq_some_iff {v : Json} {m : Metadata} :
    ofJson? v = some m ↔ ∃ fs, v = .obj fs ∧ ReadFrom fs m := by
  constructor
  · intro h
    obtain ⟨fs, hfs, h⟩ := Option.bind_eq_some_iff.mp h
    obtain ⟨component, hcomponent, h⟩ := Option.bind_eq_some_iff.mp h
    obtain rfl := Option.some.inj h
    exact ⟨fs, obj_of_fields? hfs, hcomponent, rfl⟩
  · rintro ⟨fs, rfl, h⟩
    rw [ofJson?, Json.fields?, bind_of_eq rfl, bind_of_eq h.component, h.extra]
    rfl

/-- The known field as it is written. -/
def known (m : Metadata) : List (String × Option Json) :=
  [("component", m.component.map Component.toJson)]

theorem knows (m : Metadata) : Known ["component"] m.known :=
  ⟨by simp [known], by simp [known]⟩

theorem toJson_eq (m : Metadata) : m.toJson = .obj (written m.known ++ m.extra) := by
  rw [toJson, field_eq]
  rfl

theorem toJson_ne_null (m : Metadata) : m.toJson ≠ .null := obj_ne_null _

/-- What is carried along, at all depths, is left over from something that fits. -/
structure Clean (d : Nat) (m : Metadata) : Prop where
  component : ∀ c ∈ m.component, c.Clean d
  extra : Carried ["component"] (d + 3) m.extra

variable {d : Nat} {v : Json} {m : Metadata}

theorem clean_of_ofJson? (h : ofJson? v = some m) (hv : v.Fits (d + 4)) : m.Clean d := by
  obtain ⟨fs, rfl, hread⟩ := ofJson?_eq_some_iff.mp h
  have hfits := fits_obj_iff.mp hv
  refine ⟨fun c hc => ?_, ?_⟩
  · obtain ⟨f, hf, -, heq⟩ := of_optional (hread.component.trans (congrArg some hc))
    exact Component.clean_of_ofJson? heq (hfits f hf)
  · rw [← hread.extra]
    exact carried_leftOver hfits _

theorem once_known (h : m.Clean d) {n : String} {o : Option Json} (hmem : (n, o) ∈ m.known) :
    once [n] (written m.known ++ m.extra) = some o :=
  once_written_self h.extra (knows m) hmem

theorem readFrom_written (h : m.Clean d) : ReadFrom (written m.known ++ m.extra) m where
  component := optional_of_once (once_known h (by simp [known]))
    (fun c hc => Component.ofJson?_toJson (h.component c hc)) Component.toJson_ne_null
  extra := leftOver_written h.extra (knows _)

theorem ofJson?_toJson (h : m.Clean d) : ofJson? m.toJson = some m :=
  ofJson?_eq_some_iff.mpr ⟨_, toJson_eq m, readFrom_written h⟩

theorem fits_toJson (h : m.Clean d) : m.toJson.Fits (d + 4) := by
  rw [toJson_eq]
  refine fits_written h.extra ?_
  simp only [known, List.forall_mem_cons]
  exact ⟨fits_map fun c hc => Component.fits_toJson (h.component c hc), nofun⟩

end Metadata

namespace Bom

/-- The bill of materials that these fields hold. -/
structure ReadFrom (fs : Fields) (b : Bom) : Prop where
  format : defaulted formatName string? ["bomFormat"] fs = some b.format
  specVersion : defaulted "" string? ["specVersion"] fs = some b.specVersion
  serialNumber : optional string? ["serialNumber"] fs = some b.serialNumber
  version : optional (natBelow? (Nat.pow 2 32)) ["version"] fs = some b.version
  metadata : optional Metadata.ofJson? ["metadata"] fs = some b.metadata
  components : defaulted [] (list? Component.ofJson?) ["components"] fs = some b.components
  dependencies : optional (list? Dependency.ofJson?) ["dependencies"] fs = some b.dependencies
  extra : leftOver names fs = b.extra

theorem ofJson?_eq_some_iff {v : Json} {b : Bom} :
    ofJson? v = some b ↔ ∃ fs, v = .obj fs ∧ ReadFrom fs b := by
  constructor
  · intro h
    obtain ⟨fs, hfs, h⟩ := Option.bind_eq_some_iff.mp h
    obtain ⟨format, hformat, h⟩ := Option.bind_eq_some_iff.mp h
    obtain ⟨specVersion, hspecVersion, h⟩ := Option.bind_eq_some_iff.mp h
    obtain ⟨serialNumber, hserialNumber, h⟩ := Option.bind_eq_some_iff.mp h
    obtain ⟨version, hversion, h⟩ := Option.bind_eq_some_iff.mp h
    obtain ⟨metadata, hmetadata, h⟩ := Option.bind_eq_some_iff.mp h
    obtain ⟨components, hcomponents, h⟩ := Option.bind_eq_some_iff.mp h
    obtain ⟨dependencies, hdependencies, h⟩ := Option.bind_eq_some_iff.mp h
    obtain rfl := Option.some.inj h
    exact ⟨fs, obj_of_fields? hfs, hformat, hspecVersion, hserialNumber, hversion, hmetadata,
      hcomponents, hdependencies, rfl⟩
  · rintro ⟨fs, rfl, h⟩
    rw [ofJson?, Json.fields?, bind_of_eq rfl, bind_of_eq h.format, bind_of_eq h.specVersion,
      bind_of_eq h.serialNumber, bind_of_eq h.version, bind_of_eq h.metadata,
      bind_of_eq h.components, bind_of_eq h.dependencies, h.extra]
    rfl

/-- The known fields as they are written. -/
def known (b : Bom) : List (String × Option Json) := [
  ("bomFormat", some (.str b.format)), ("specVersion", some (.str b.specVersion)),
  ("serialNumber", b.serialNumber.map .str), ("version", b.version.map Json.nat),
  ("metadata", b.metadata.map Metadata.toJson),
  ("components", some (.arr (b.components.map Component.toJson))),
  ("dependencies", b.dependencies.map fun ds => .arr (ds.map Dependency.toJson))]

theorem knows (b : Bom) : Known names b.known :=
  ⟨by simp [known], by simp [known, names]⟩

theorem toJson_eq (b : Bom) : b.toJson = .obj (written b.known ++ b.extra) := by
  have hhead : [("bomFormat", Json.str b.format), ("specVersion", .str b.specVersion)] =
      written [("bomFormat", some (.str b.format)), ("specVersion", some (.str b.specVersion))] := rfl
  have hcomponents : [("components", Json.arr (b.components.map Component.toJson))] =
      written [("components", some (.arr (b.components.map Component.toJson)))] := rfl
  rw [toJson, hhead, hcomponents]
  simp only [field_eq, ← written_append]
  rfl

/-- What is carried along, at all depths, is left over from something that fits, and so is the
version. -/
structure Clean (d : Nat) (b : Bom) : Prop where
  version : ∀ n ∈ b.version, n < 2 ^ 32
  metadata : ∀ m ∈ b.metadata, m.Clean d
  components : ∀ c ∈ b.components, c.Clean d
  dependencies : ∀ ds ∈ b.dependencies, ∀ e ∈ ds, e.Clean d
  extra : Carried names (d + 4) b.extra

variable {d : Nat} {v : Json} {b : Bom}

theorem clean_of_ofJson? (h : ofJson? v = some b) (hv : v.Fits (d + 5)) : b.Clean d := by
  obtain ⟨fs, rfl, hread⟩ := ofJson?_eq_some_iff.mp h
  have hfits := fits_obj_iff.mp hv
  constructor
  · intro n hn
    obtain ⟨f, -, -, heq⟩ := of_optional (hread.version.trans (congrArg some hn))
    exact natBelow?_lt heq
  · intro m hm
    obtain ⟨f, hf, -, heq⟩ := of_optional (hread.metadata.trans (congrArg some hm))
    exact Metadata.clean_of_ofJson? heq (hfits f hf)
  · intro c hc
    obtain ⟨w, hw, heq⟩ := exists_of_defaulted_list? hread.components hfits c hc
    exact Component.clean_of_ofJson? heq hw
  · intro ds hds e he
    obtain ⟨w, hw, heq⟩ := exists_of_optional_list? hread.dependencies hfits ds hds e he
    exact Dependency.clean_of_ofJson? heq hw
  · rw [← hread.extra]
    exact carried_leftOver hfits names

theorem once_known (h : b.Clean d) {n : String} {o : Option Json} (hmem : (n, o) ∈ b.known) :
    once [n] (written b.known ++ b.extra) = some o :=
  once_written_self h.extra (knows b) hmem

theorem readFrom_written (h : b.Clean d) : ReadFrom (written b.known ++ b.extra) b where
  format := defaulted_string (once_known h (by simp [known]))
  specVersion := defaulted_string (once_known h (by simp [known]))
  serialNumber := optional_string (once_known h (by simp [known]))
  version := optional_of_once (once_known h (by simp [known]))
    (fun n hn => natBelow?_nat (h.version n hn)) nofun
  metadata := optional_of_once (once_known h (by simp [known]))
    (fun m hm => Metadata.ofJson?_toJson (h.metadata m hm)) Metadata.toJson_ne_null
  components := defaulted_of_once (once_known h (by simp [known]))
    (list?_arr fun c hc => Component.ofJson?_toJson (h.components c hc))
  dependencies := optional_of_once (once_known h (by simp [known]))
    (fun ds hds => list?_arr fun e he => Dependency.ofJson?_toJson (h.dependencies ds hds e he))
    fun _ => arr_ne_null _
  extra := leftOver_written h.extra (knows _)

theorem ofJson?_toJson (h : b.Clean d) : ofJson? b.toJson = some b :=
  ofJson?_eq_some_iff.mpr ⟨_, toJson_eq b, readFrom_written h⟩

theorem fits_toJson (h : b.Clean d) : b.toJson.Fits (d + 5) := by
  have hversion : ∀ n ∈ b.version, (Json.nat n).Fits (d + 4) := fun n hn =>
    fits_nat _ (Nat.lt_trans (h.version n hn) (by decide))
  have hmetadata : ∀ m ∈ b.metadata, m.toJson.Fits (d + 4) := fun m hm =>
    Metadata.fits_toJson (h.metadata m hm)
  have hcomponents : (Json.arr (b.components.map Component.toJson)).Fits (d + 4) :=
    fits_arr_map fun c hc => Component.fits_toJson (h.components c hc)
  have hdependencies : ∀ ds ∈ b.dependencies, (Json.arr (ds.map Dependency.toJson)).Fits (d + 4) :=
    fun ds hds => fits_arr_map fun e he => Dependency.fits_toJson (h.dependencies ds hds e he)
  rw [toJson_eq]
  refine fits_written h.extra ?_
  simp only [known, List.forall_mem_cons]
  exact ⟨fits_some (fits_str _ b.format), fits_some (fits_str _ b.specVersion),
    fits_map fun s _ => fits_str _ s, fits_map hversion, fits_map hmetadata,
    fits_some hcomponents, fits_map hdependencies, nofun⟩

end Bom

end BomAssembly
