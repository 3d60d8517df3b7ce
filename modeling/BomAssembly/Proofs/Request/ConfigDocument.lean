import BomAssembly.Proofs.Fallible
import BomAssembly.Proofs.Number.Spelling
import BomAssembly.Proofs.Yaml.Meaning
import BomAssembly.Request.ConfigDocument

/-!
# Configurations are read back from their documents

The document that a configuration is written as means that configuration (`ofValue_toData`) and has
the shape that is read as it was written (`regular_toData`), so whatever its texts are it is read back
from its document (`parse_render`). Without the blanks at its end the document is read the same when
the text it ends with can spare them (`parse_trimmed_render`).
-/

namespace BomAssembly

open Yaml (Data Value KeyWord)

theorem Generator.ofValue?_toData (g : Generator) : Generator.ofValue? g.toData.value = some g := by
  obtain ⟨tool, version, args⟩ := g
  cases version <;> cases args <;> rfl

theorem Product.ofValue?_toData (p : Product) : Product.ofValue? p.toData.value = some p := by
  have hgenerator := Generator.ofValue?_toData p.generator
  show (Generator.ofValue? p.generator.toData.value).bind (fun g => some (⟨g⟩ : Product)) = _
  rw [hgenerator]
  rfl

theorem Deliverable.index?_int {i : Nat} (h : i < Nat.pow 2 32) :
    Deliverable.index? (.int i) = some i := by
  have hrange : (0 : Int) ≤ i ∧ (i : Int) < Nat.pow 2 32 := by omega
  rw [Deliverable.index?, if_pos hrange]
  rfl

theorem Deliverable.ofValue?_toData {d : Deliverable} (h : d.index < Nat.pow 2 32) :
    Deliverable.ofValue? d.toData.value = some d := by
  -- said of any reader of indices, so that the bound need not be evaluated
  have hbody : ∀ read : Value → Option Nat, read (.int d.index) = some d.index →
      ((d.toData.value.record? ["index", "url", "pom"]).bind fun fs =>
        (Yaml.required read "index" fs).bind fun index =>
        (Yaml.required Value.string? "url" fs).bind fun url =>
        (Yaml.defaulted none Value.stringOrNull? "pom" fs).bind fun pom =>
        some (⟨index, url, pom⟩ : Deliverable)) = some d := by
    intro read hread
    obtain ⟨index, url, pom⟩ := d
    cases pom with
    | none =>
        show (read (.int index)).bind (fun i => some (⟨i, url, none⟩ : Deliverable)) = _
        rw [hread]
        rfl
    | some pom =>
        show (read (.int index)).bind (fun i => some (⟨i, url, some pom⟩ : Deliverable)) = _
        rw [hread]
        rfl
  exact hbody Deliverable.index? (Deliverable.index?_int h)

/-- Items that are read one by one. -/
theorem list?_itemValues {α : Type} {read : Value → Option α} {write : α → Data} (as : List α)
    (h : ∀ a ∈ as, read (write a).value = some a) :
    Value.list? read (.seq (Yaml.itemValues (as.map write))) = some as := by
  rw [Value.list?]
  induction as with
  | nil => rfl
  | cons a as ih =>
      rw [List.map_cons, Yaml.itemValues, List.mapM_cons, h a List.mem_cons_self,
        ih fun b hb => h b (List.mem_cons_of_mem a hb)]
      rfl

namespace Config

/-- The indices that deliverables can be declared with. -/
def InRange : Config → Prop
  | build _ => True
  | operation o => ∀ d ∈ o.deliverables, d.index < Nat.pow 2 32

/-- The entries of a build's document, but for the tag. -/
def buildEntries (c : BuildConfig) : List (String × Data) := [
  ("buildId", .str c.buildId), ("products", .seq (c.products.map Product.toData))]

/-- The entries of an operation's document, but for the tag. -/
def operationEntries (c : OperationConfig) : List (String × Data) := [
  ("operationId", .str c.operationId), ("product", c.product.toData),
  ("deliverables", .seq (c.deliverables.map Deliverable.toData))]

/-- The body of a build's document. -/
theorem ofValue?_build (c : BuildConfig) :
    BuildConfig.ofValue? (.map (Yaml.entryValues (buildEntries c))) = some c := by
  have hproducts := list?_itemValues c.products fun p _ => Product.ofValue?_toData p
  show (Value.list? Product.ofValue? (.seq (Yaml.itemValues (c.products.map Product.toData)))).bind
    (fun ps => some (⟨c.buildId, ps⟩ : BuildConfig)) = _
  rw [hproducts]
  rfl

/-- The body of an operation's document. -/
theorem ofValue?_operation {c : OperationConfig} (h : (operation c).InRange) :
    OperationConfig.ofValue? (.map (Yaml.entryValues (operationEntries c))) = some c := by
  have hproduct := Product.ofValue?_toData c.product
  have hdeliverables := list?_itemValues c.deliverables
    fun d hd => Deliverable.ofValue?_toData (h d hd)
  show (Product.ofValue? c.product.toData.value).bind (fun p =>
    (Value.list? Deliverable.ofValue?
      (.seq (Yaml.itemValues (c.deliverables.map Deliverable.toData)))).bind fun ds =>
        some (⟨c.operationId, p, ds⟩ : OperationConfig)) = _
  rw [hproduct]
  dsimp only [Option.bind_some]
  rw [hdeliverables]
  rfl

theorem toData_build (c : BuildConfig) :
    (build c).toData = .map ((tagName, .str Kind.build.tag) :: buildEntries c) := rfl

theorem toData_operation (c : OperationConfig) :
    (operation c).toData = .map ((tagName, .str Kind.operation.tag) :: operationEntries c) := rfl

section Tag

variable {es : List (String × Data)} (hes : tagName ∉ es.map Prod.fst) (tag : String)

theorem tag?_tagged :
    tag? ((.str tagName, .str tag) :: Yaml.entryValues es) = some (.str tag) := by
  simp [tag?, Value.same]

include hes

theorem untaggedEntries_entryValues :
    untaggedEntries (Yaml.entryValues es) = Yaml.entryValues es := by
  induction es with
  | nil => rfl
  | cons e es ih =>
      obtain ⟨k, d⟩ := e
      rw [List.map_cons, List.mem_cons, not_or] at hes
      have hk : (k == tagName) = false := beq_eq_false_iff_ne.mpr fun heq => hes.1 heq.symm
      rw [Yaml.entryValues, untaggedEntries, List.filter_cons_of_pos (by simp [Value.same, hk])]
      exact congrArg _ (ih hes.2)

theorem untaggedEntries_tagged :
    untaggedEntries ((.str tagName, .str tag) :: Yaml.entryValues es) = Yaml.entryValues es := by
  rw [untaggedEntries, List.filter_cons_of_neg (by simp [Value.same])]
  exact untaggedEntries_entryValues hes

/-- The tag decides what the other entries are read as. -/
theorem ofValue_tagged {c : Config} (kind : Kind)
    (h : (if tag = Kind.build.tag then
        (BuildConfig.ofValue? (.map (Yaml.entryValues es))).map build
      else if tag = Kind.operation.tag then
        (OperationConfig.ofValue? (.map (Yaml.entryValues es))).map operation
      else none) = some c) :
    ofValue kind (.map ((.str tagName, .str tag) :: Yaml.entryValues es)) = .ok c := by
  -- the body itself holds no tags of the other kind
  have hplain : (Value.map (Yaml.entryValues es)).hasTag = false := (Data.map es).hasTag_value
  have hentries : ofEntries? ((.str tagName, .str tag) :: Yaml.entryValues es) = some c := by
    rw [ofEntries?, tag?_tagged, untaggedEntries_tagged hes]
    dsimp only [Option.bind_eq_bind, Option.bind_some, Value.untagged, Value.string?]
    rw [hplain]
    exact h
  rw [ofValue]
  dsimp only [Value.untagged]
  rw [tag?_tagged]
  dsimp only [Option.isSome_some]
  rw [if_pos rfl, hentries]

end Tag

/-- **A configuration is what its document means**, for whatever kind of request. -/
theorem ofValue_toData {c : Config} (h : c.InRange) (kind : Kind) :
    ofValue kind c.toData.value = .ok c := by
  cases c with
  | build c =>
      have hes : tagName ∉ (buildEntries c).map Prod.fst := by
        show tagName ∉ ["buildId", "products"]
        decide
      refine ofValue_tagged hes Kind.build.tag kind ?_
      rw [if_pos rfl, ofValue?_build]
      rfl
  | operation c =>
      have hes : tagName ∉ (operationEntries c).map Prod.fst := by
        show tagName ∉ ["operationId", "product", "deliverables"]
        decide
      refine ofValue_tagged hes Kind.operation.tag kind ?_
      rw [if_neg (by decide), if_pos rfl, ofValue?_operation h]
      rfl

/-! ## Indices that were read -/

theorem index_lt_of_ofValue? {v : Value} {d : Deliverable} (h : Deliverable.ofValue? v = some d) :
    d.index < Nat.pow 2 32 := by
  -- a number is tested, and a text is read below the same bound
  have hindex : ∀ v i, Deliverable.index? v = some i → i < Nat.pow 2 32 := by
    intro v i hi
    unfold Deliverable.index? at hi
    split at hi
    · split at hi
      · next hrange =>
        rw [← Option.some.inj hi]
        omega
      · exact absurd hi (by simp)
    · exact (Number.naturalBelow?_eq_some_iff.mp hi).1
    · exact absurd hi (by simp)
  unfold Deliverable.ofValue? at h
  obtain ⟨fs, -, h⟩ := Option.bind_eq_some_iff.mp h
  obtain ⟨i, hi, h⟩ := Option.bind_eq_some_iff.mp h
  obtain ⟨url, -, h⟩ := Option.bind_eq_some_iff.mp h
  obtain ⟨pom, -, h⟩ := Option.bind_eq_some_iff.mp h
  obtain ⟨w, -, hw⟩ := Option.bind_eq_some_iff.mp hi
  rw [← Option.some.inj h]
  exact hindex w i hw

theorem inRange_of_operation {v : Value} {o : OperationConfig}
    (h : OperationConfig.ofValue? v = some o) : (operation o).InRange := by
  intro d hd
  unfold OperationConfig.ofValue? at h
  obtain ⟨fs, -, h⟩ := Option.bind_eq_some_iff.mp h
  obtain ⟨id, -, h⟩ := Option.bind_eq_some_iff.mp h
  obtain ⟨product, -, h⟩ := Option.bind_eq_some_iff.mp h
  obtain ⟨ds, hds, h⟩ := Option.bind_eq_some_iff.mp h
  obtain rfl := Option.some.inj h
  unfold Yaml.defaulted at hds
  split at hds
  · next list _ =>
    unfold Value.list? at hds
    split at hds
    · obtain ⟨item, -, hitem⟩ := exists_of_mem_mapM_some hds d hd
      exact index_lt_of_ofValue? hitem
    · exact absurd hds (by simp)
  · rw [← Option.some.inj hds] at hd
    exact absurd hd List.not_mem_nil

theorem inRange_of_ofEntries {entries : List (Value × Value)} {c : Config}
    (h : ofEntries? entries = some c) : c.InRange := by
  unfold ofEntries? at h
  obtain ⟨tag, -, h⟩ := Option.bind_eq_some_iff.mp h
  dsimp only at h
  split at h
  · exact absurd h (by simp)
  · split at h
    · obtain ⟨b, -, rfl⟩ := Option.map_eq_some_iff.mp h
      trivial
    · split at h
      · obtain ⟨o, ho, rfl⟩ := Option.map_eq_some_iff.mp h
        exact inRange_of_operation ho
      · exact absurd h (by simp)

/-- **A configuration that was read has indices of 32 bits.** -/
theorem inRange_of_ofValue {kind : Kind} {v : Value} {c : Config} (h : ofValue kind v = .ok c) :
    c.InRange := by
  unfold ofValue at h
  split at h
  · dsimp only at h
    split at h
    · exact absurd h (by simp)
    · split at h
      · next c' hc =>
        obtain rfl := Except.ok.inj h
        exact inRange_of_ofEntries hc
      · exact absurd h (by simp)
  · exact absurd h (by simp)

/-! ## Its document -/

/-- The keys of the documents. -/
def keys : List String := ["type", "buildId", "products", "operationId", "product", "deliverables",
  "generator", "version", "args", "index", "url", "pom"]

theorem keyWord_of_mem {k : String} (h : k ∈ keys) : KeyWord k := by
  have hkeys : ∀ k ∈ keys, KeyWord k := by decide
  exact hkeys k h

theorem regularEntries_of_keys {es : List (String × Data)} (hnodup : (es.map Prod.fst).Nodup)
    (hmem : ∀ k ∈ es.map Prod.fst, k ∈ keys) (hvalues : ∀ e ∈ es, e.2.Regular) :
    Yaml.RegularEntries es := by
  induction es with
  | nil => trivial
  | cons e es ih =>
      rw [List.map_cons, List.nodup_cons] at hnodup
      rw [List.map_cons, List.forall_mem_cons] at hmem
      rw [List.forall_mem_cons] at hvalues
      exact ⟨keyWord_of_mem hmem.1, hnodup.1, hvalues.1, ih hnodup.2 hmem.2 hvalues.2⟩

/-- A mapping with some of the keys. -/
theorem regular_map {es : List (String × Data)} (ks : List String)
    (hks : ks ≠ [] ∧ ks.Nodup ∧ ∀ k ∈ ks, k ∈ keys) (hes : es.map Prod.fst = ks)
    (hvalues : ∀ e ∈ es, e.2.Regular) : (Data.map es).Regular := by
  obtain ⟨hne, hnodup, hmem⟩ := hks
  subst hes
  exact ⟨fun hnil => hne (by rw [hnil]; rfl), regularEntries_of_keys hnodup hmem hvalues⟩

theorem regular_generator (g : Generator) : g.toData.Regular := by
  obtain ⟨tool, version, args⟩ := g
  have hmap : ∀ {es : List (String × Data)} (ks : List String),
      (ks ≠ [] ∧ ks.Nodup ∧ ∀ k ∈ ks, k ∈ keys) → es.map Prod.fst = ks →
      (∀ e ∈ es, ∃ s, e.2 = .str s) → (Data.map es).Regular := by
    intro es ks hks hes htexts
    refine regular_map ks hks hes fun e he => ?_
    obtain ⟨s, hs⟩ := htexts e he
    rw [hs]
    trivial
  cases version with
  | none =>
      cases args with
      | none => exact hmap ["type"] (by decide) rfl (by simp [optionalField])
      | some args => exact hmap ["type", "args"] (by decide) rfl (by simp [optionalField])
  | some version =>
      cases args with
      | none => exact hmap ["type", "version"] (by decide) rfl (by simp [optionalField])
      | some args =>
          exact hmap ["type", "version", "args"] (by decide) rfl (by simp [optionalField])

theorem regular_product (p : Product) : p.toData.Regular := by
  refine regular_map ["generator"] (by decide) rfl fun e he => ?_
  rw [List.mem_singleton.mp he]
  exact regular_generator p.generator

theorem regular_deliverable {d : Deliverable} (h : d.index < Nat.pow 2 32) : d.toData.Regular := by
  have hindex : (Data.int d.index).Regular := by
    have hpow : Nat.pow 2 32 ≤ Nat.pow 2 64 := by decide
    rw [Data.Regular]
    omega
  obtain ⟨index, url, pom⟩ := d
  cases pom with
  | none =>
      have hvalues : ∀ e ∈ [("index", Data.int index), ("url", .str url)], e.2.Regular := by
        simp only [List.forall_mem_cons]
        exact ⟨hindex, trivial, fun e he => absurd he List.not_mem_nil⟩
      exact regular_map ["index", "url"] (by decide) rfl hvalues
  | some pom =>
      have hvalues : ∀ e ∈ [("index", Data.int index), ("url", .str url), ("pom", .str pom)],
          e.2.Regular := by
        simp only [List.forall_mem_cons]
        exact ⟨hindex, trivial, trivial, fun e he => absurd he List.not_mem_nil⟩
      exact regular_map ["index", "url", "pom"] (by decide) rfl hvalues

/-- Items that are mappings. -/
theorem regularItems_map {α : Type} {write : α → List (String × Data)} {as : List α}
    (h : ∀ a ∈ as, (Data.map (write a)).Regular) :
    Yaml.RegularItems (as.map fun a => .map (write a)) := by
  induction as with
  | nil => trivial
  | cons a as ih =>
      exact ⟨h a List.mem_cons_self, ih fun b hb => h b (List.mem_cons_of_mem a hb)⟩

/-- **The document of a configuration is regular.** -/
theorem regular_toData {c : Config} (h : c.InRange) : c.toData.Regular := by
  cases c with
  | build c =>
      have hproducts : (Data.seq (c.products.map Product.toData)).Regular :=
        regularItems_map fun p _ => regular_product p
      have hvalues : ∀ e ∈ (tagName, .str Kind.build.tag) :: buildEntries c, e.2.Regular := by
        simp only [buildEntries, List.forall_mem_cons]
        exact ⟨trivial, trivial, hproducts, fun e he => absurd he List.not_mem_nil⟩
      exact regular_map ["type", "buildId", "products"] (by decide) rfl hvalues
  | operation c =>
      have hdeliverables : (Data.seq (c.deliverables.map Deliverable.toData)).Regular :=
        regularItems_map fun d hd => regular_deliverable (h d hd)
      have hvalues : ∀ e ∈ (tagName, .str Kind.operation.tag) :: operationEntries c,
          e.2.Regular := by
        simp only [operationEntries, List.forall_mem_cons]
        exact ⟨trivial, trivial, regular_product c.product, hdeliverables,
          fun e he => absurd he List.not_mem_nil⟩
      exact regular_map ["type", "operationId", "product", "deliverables"] (by decide) rfl hvalues

/-! ## How deep it is -/

theorem height_generator (g : Generator) : g.toData.height ≤ 1 := by
  obtain ⟨tool, version, args⟩ := g
  cases version <;> cases args <;> exact Nat.le_refl 1

theorem height_product (p : Product) : p.toData.height ≤ 2 := by
  have hgenerator := height_generator p.generator
  have hheight : p.toData.height = max p.generator.toData.height 0 + 1 := rfl
  omega

theorem height_deliverable (d : Deliverable) : d.toData.height ≤ 1 := by
  obtain ⟨index, url, pom⟩ := d
  cases pom <;> exact Nat.le_refl 1

theorem itemsHeight_map {α : Type} {write : α → Data} {n : Nat} (h : ∀ a, (write a).height ≤ n)
    (as : List α) : Yaml.itemsHeight (as.map write) ≤ n := by
  induction as with
  | nil => exact Nat.zero_le n
  | cons a as ih => exact Nat.max_le.mpr ⟨h a, ih⟩

theorem height_toData (c : Config) : c.toData.height ≤ Yaml.maxDepth := by
  have hmax : Yaml.maxDepth = 128 := rfl
  cases c with
  | build c =>
      have hproducts := itemsHeight_map height_product c.products
      have hheight : (build c).toData.height =
          max 0 (max 0 (max (Yaml.itemsHeight (c.products.map Product.toData) + 1) 0)) + 1 := rfl
      omega
  | operation c =>
      have hproduct := height_product c.product
      have hdeliverables := itemsHeight_map height_deliverable c.deliverables
      have hheight : (operation c).toData.height = max 0 (max 0 (max c.product.toData.height
          (max (Yaml.itemsHeight (c.deliverables.map Deliverable.toData) + 1) 0))) + 1 := rfl
      omega

/-! ## Reading it again -/

section Reading

variable {raw correlationId : String} {kind : Kind} {c : Config}

/-- A document that says a configuration is read as it, if it passes the check. -/
theorem parse_of_means {v : Value} (hvalue : Value.parse? raw = some v)
    (hconfig : ofValue kind v = .ok c) :
    parse raw kind correlationId = (c.check kind correlationId).map fun _ => c := by
  rw [parse, hvalue]
  dsimp only
  rw [hconfig]
  show (c.check kind correlationId >>= fun _ => Except.ok c) = _
  cases c.check kind correlationId <;> rfl

theorem parse_of_value {v : Value} (hvalue : Value.parse? raw = some v)
    (hconfig : ofValue kind v = .ok c) (hcheck : c.check kind correlationId = .ok ()) :
    parse raw kind correlationId = .ok c := by
  rw [parse_of_means hvalue hconfig, hcheck]
  rfl

/-- What was read is in range and fits the request. -/
theorem of_parse (h : parse raw kind correlationId = .ok c) :
    c.InRange ∧ c.check kind correlationId = .ok () := by
  unfold parse at h
  split at h
  · exact absurd h (by simp)
  · obtain ⟨c', hconfig, h⟩ := bind_eq_ok.mp h
    obtain ⟨_, hcheck, h⟩ := bind_eq_ok.mp h
    obtain rfl := Except.ok.inj h
    exact ⟨inRange_of_ofValue hconfig, hcheck⟩

theorem exists_toData_eq_map (c : Config) : ∃ es, c.toData = .map es := by
  cases c with
  | build c => exact ⟨_, toData_build c⟩
  | operation c => exact ⟨_, toData_operation c⟩

theorem value_render (h : c.InRange) : Value.parse? c.render = some c.toData.value := by
  have hregular := regular_toData h
  have hheight := height_toData c
  obtain ⟨es, hes⟩ := exists_toData_eq_map c
  rw [hes] at hregular hheight
  rw [render, hes]
  exact Value.parse?_render hregular hheight

/-- **A configuration is read back from its document**, whatever its texts are. -/
theorem parse_render (h : c.InRange) (hcheck : c.check kind correlationId = .ok ()) :
    parse c.render kind correlationId = .ok c := by
  rw [parse_of_means (value_render h) (ofValue_toData h kind), hcheck]
  rfl

/-- The text that the document ends with is quoted or does not end in a blank. -/
def KeepsEnd (c : Config) : Prop := c.toData.last.KeepsEnd

theorem value_trimmed_render (h : c.InRange) (hkeeps : c.KeepsEnd) :
    Value.parse? (Text.trimmed c.render) = some c.toData.value := by
  have hregular := regular_toData h
  have hheight := height_toData c
  obtain ⟨es, hes⟩ := exists_toData_eq_map c
  rw [KeepsEnd, hes] at hkeeps
  rw [hes] at hregular hheight
  rw [render, hes]
  exact Value.parse?_trimmed_render hregular hheight hkeeps

/-- **So it is without the blanks at the end of the document**, if the last text can spare them. -/
theorem parse_trimmed_render (h : c.InRange) (hcheck : c.check kind correlationId = .ok ())
    (hkeeps : c.KeepsEnd) : parse (Text.trimmed c.render) kind correlationId = .ok c := by
  rw [parse_of_means (value_trimmed_render h hkeeps) (ofValue_toData h kind), hcheck]
  rfl

end Reading

end Config

end BomAssembly
