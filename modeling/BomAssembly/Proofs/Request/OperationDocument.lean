import BomAssembly.Proofs.Request.ConfigDocument
import BomAssembly.Request.OperationDocument

/-!
# Job runs read the configuration that was written for them

The document of a configuration says by its tag what it is for. A job run knows that, and reads the
fields by their names from the nodes themselves; the tag is one more name that it passes over. It finds
the same operation (`parse?_render`).
-/

namespace BomAssembly

open Yaml (Data Document Node fieldOr itemNodes entryNodes)

namespace Yaml

theorem RegularEntries.nodup {es : List (String × Data)} (h : RegularEntries es) :
    (es.map Prod.fst).Nodup := by
  induction es with
  | nil => exact List.nodup_nil
  | cons e es ih =>
      obtain ⟨-, hnew, -, hmore⟩ := h
      exact List.nodup_cons.mpr ⟨hnew, ih hmore⟩

namespace Document

variable (document : Document)

theorem text?_str (s : String) : document.text? (Data.str s).node = some s := rfl

/-- A text is never taken for nothing: one that would be is quoted. -/
theorem textOrNull?_str (s : String) : document.textOrNull? (Data.str s).node = some (some s) := by
  have htarget : document.target (Data.str s).node = some (.scalar none (styleOf false s) s) := rfl
  have hnull : styleOf false s = .plain → (s == "" || isNullWord s) = false := by
    intro hplain
    have htext := (plainText_of_styleOf hplain).2.1
    rw [Bool.eq_false_iff]
    intro hnull
    rw [plainValue, hnull] at htext
    exact absurd htext (by simp)
  rw [textOrNull?, htarget]
  cases hstyle : styleOf false s with
  | plain =>
      dsimp only
      rw [hnull hstyle]
      rfl
  | _ => rfl

theorem mapM_text?_entryNodes (es : List (String × Data)) :
    ((entryNodes es).mapM fun e => (document.text? e.1).bind fun k => some (k, e.2)) =
      some (es.map fun e => (e.1, e.2.node)) := by
  induction es with
  | nil => rfl
  | cons e es ih =>
      rw [entryNodes, List.mapM_cons, ih]
      rfl

/-- The fields of a mapping are those of its entries that are asked for. -/
theorem record?_map {es : List (String × Data)} (h : RegularEntries es) (names : List String) :
    document.record? names (Data.map es).node =
      some ((es.map fun e => (e.1, e.2.node)).filter fun f => f.1 ∈ names) := by
  have hkeys : ((es.map fun e => (e.1, e.2.node)).map Prod.fst).Nodup := by
    rw [List.map_map]
    exact h.nodup
  have hfields : (((es.map fun e => (e.1, e.2.node)).filter fun f => f.1 ∈ names).map
      Prod.fst).Nodup :=
    hkeys.sublist (List.filter_sublist.map Prod.fst)
  show (((entryNodes es).mapM fun e => (document.text? e.1).bind fun k => some (k, e.2)).bind
    fun fields =>
      if ((fields.filter fun f => f.1 ∈ names).map Prod.fst).Nodup then
        some (fields.filter fun f => f.1 ∈ names)
      else none) = _
  rw [mapM_text?_entryNodes, Option.bind_some, if_pos hfields]

end Document

end Yaml

section Nodes

variable (document : Document)

theorem Generator.ofNode?_toData (g : Generator) :
    Generator.ofNode? document g.toData.node = some g := by
  have hregular := (Config.regular_generator g).2
  obtain ⟨tool, version, args⟩ := g
  rw [Generator.ofNode?, Generator.toData, document.record?_map hregular]
  cases version <;> cases args <;>
    simp [fieldNames, optionalField, fieldOr, List.lookup_cons, document.text?_str,
      document.textOrNull?_str]

theorem Product.ofNode?_toData (p : Product) : Product.ofNode? document p.toData.node = some p := by
  have hregular := (Config.regular_product p).2
  rw [Product.ofNode?, Product.toData, document.record?_map hregular]
  show (Generator.ofNode? document p.generator.toData.node).bind (fun g => some (⟨g⟩ : Product)) = _
  rw [Generator.ofNode?_toData]
  rfl

theorem Deliverable.indexOfNode?_int {i : Nat} (h : i < Nat.pow 2 32) :
    Deliverable.indexOfNode? document (Data.int i).node = some i := by
  have hvalue : Yaml.Value.ofScalar? none .plain (toString (i : Int)) = some (.int i) := by
    have hfits : Nat.pow 2 32 ≤ Nat.pow 2 64 := by decide
    have hplain := Yaml.plainValue_nat (n := i) (by omega)
    show Yaml.Value.ofPlain? (toString (i : Int)) = _
    rw [Yaml.Value.ofPlain?, hplain]
  show (Yaml.Value.ofScalar? none .plain (toString (i : Int))).bind Deliverable.index? = _
  rw [hvalue, Option.bind_some, Deliverable.index?_int h]

theorem Deliverable.ofNode?_toData {d : Deliverable} (h : d.index < Nat.pow 2 32) :
    Deliverable.ofNode? document d.toData.node = some d := by
  have hregular := (Config.regular_deliverable h).2
  have hindex := Deliverable.indexOfNode?_int document h
  obtain ⟨index, url, pom⟩ := d
  rw [Deliverable.ofNode?, Deliverable.toData, document.record?_map hregular]
  cases pom <;>
    simp [optionalField, fieldOr, List.lookup_cons, hindex, document.text?_str,
      document.textOrNull?_str]

theorem OperationConfig.deliverables?_toData {ds : List Deliverable}
    (h : ∀ d ∈ ds, d.index < Nat.pow 2 32) :
    (itemNodes (ds.map Deliverable.toData)).mapM (Deliverable.ofNode? document) = some ds := by
  induction ds with
  | nil => rfl
  | cons d ds ih =>
      have hmore := ih fun e he => h e (List.mem_cons_of_mem d he)
      rw [List.map_cons, itemNodes, List.mapM_cons,
        Deliverable.ofNode?_toData document (h d List.mem_cons_self), hmore]
      rfl

end Nodes

namespace OperationConfig

variable {o : OperationConfig} (h : (Config.operation o).InRange)

include h

theorem ofDocument?_toData {document : Document}
    (htop : document.top = (Config.operation o).toData.node) : ofDocument? document = some o := by
  have hregular := (Config.regular_toData h).2
  rw [ofDocument?, htop, Config.toData, document.record?_map hregular]
  show (Product.ofNode? document o.product.toData.node).bind (fun p =>
    ((itemNodes (o.deliverables.map Deliverable.toData)).mapM (Deliverable.ofNode? document)).bind
      fun ds => some (⟨o.operationId, p, ds⟩ : OperationConfig)) = _
  rw [Product.ofNode?_toData, Option.bind_some, deliverables?_toData document h]
  rfl

/-- **A job run reads the operation that was written.** -/
theorem parse?_render : parse? (Config.operation o).render = some o := by
  have hregular : (Data.map _).Regular := Config.regular_toData h
  have hparse : Document.parse? (Config.operation o).render =
      some (Config.operation o).toData.document := Yaml.parse?_render hregular.1 hregular.2
  rw [parse?, hparse, Option.bind_some]
  exact ofDocument?_toData h rfl

end OperationConfig

end BomAssembly
