import Mathlib.Data.List.Forall2
import BomAssembly.Proofs.Bom.Document

/-!
# What a document that was read keeps when it is written

Told by the two JSON values, the one that was read and the one that is written. Fields that a record
does not know are kept as they were (`Json.Keeps`): under each of their names stands what was written
there last, with each field in it once. This holds at every depth that records are nested at, and the
identifier of a component is found under its one name, whichever of the two it was read from
(`Component.Kept`). Components and entries may have been added behind those that were read
(`Bom.Kept`).
-/

namespace BomAssembly

open Json (Fields Known defaulted leftOver list? once optional string? written)
open List (Forall₂)

namespace Json

/-- What is written under a name, in the order written. -/
def valuesUnder (name : String) (v : Json) : List Json :=
  ((v.fields?.getD []).filter fun f => f.1 = name).map Prod.snd

/-- A value that is there and is not `null`. -/
def present : Option Json → Option Json
  | some .null => none
  | o => o

/-- What stands under a name, unless that is `null`. -/
def under? (name : String) (v : Json) : Option Json := present (v.valuesUnder name).getLast?

/-- The items of the list under a name; none if there is no list. -/
def itemsUnder (name : String) (v : Json) : List Json :=
  match v.under? name with
  | some (.arr vs) => vs
  | _ => []

/-- Under every name but these `w` holds, once, what `v` holds there last. -/
def Keeps (names : List String) (v w : Json) : Prop :=
  ∀ k ∉ names, w.valuesUnder k = ((v.valuesUnder k).getLast?.map merged).toList

/-! ## Fields that no name takes -/

section Keeps

variable {fs : Fields} {k : String}

theorem lookup_eq_head? (k : String) (fs : Fields) :
    fs.lookup k = ((Json.obj fs).valuesUnder k).head? := by
  show _ = ((fs.filter fun f => f.1 = k).map Prod.snd).head?
  induction fs with
  | nil => rfl
  | cons f fs ih =>
      rw [lookup_cons_eq]
      by_cases hk : k = f.1
      · rw [if_pos hk, List.filter_cons_of_pos (by simpa using hk.symm)]
        rfl
      · rw [if_neg hk, List.filter_cons_of_neg (by simpa using Ne.symm hk), ih]

theorem lookup_reverse (k : String) (fs : Fields) :
    fs.reverse.lookup k = ((Json.obj fs).valuesUnder k).getLast? := by
  rw [lookup_eq_head?, List.getLast?_eq_head?_reverse]
  show ((fs.reverse.filter _).map Prod.snd).head? = ((fs.filter _).map Prod.snd).reverse.head?
  rw [List.filter_reverse, List.map_reverse]

/-- Among fields with different names each is the only one of its name. -/
theorem valuesUnder_of_nodup (h : (fs.map Prod.fst).Nodup) :
    (Json.obj fs).valuesUnder k = (fs.lookup k).toList := by
  show (fs.filter fun f => f.1 = k).map Prod.snd = _
  induction fs with
  | nil => rfl
  | cons f fs ih =>
      rw [List.map_cons, List.nodup_cons] at h
      rw [lookup_cons_eq]
      by_cases hk : k = f.1
      · have hnone : fs.filter (fun f => f.1 = k) = [] := by
          rw [List.filter_eq_nil_iff]
          intro g hg hgk
          exact h.1 (List.mem_map.mpr ⟨g, hg, (of_decide_eq_true hgk).trans hk⟩)
        rw [if_pos hk, List.filter_cons_of_pos (by simpa using hk.symm), hnone]
        rfl
      · rw [if_neg hk, List.filter_cons_of_neg (by simpa using Ne.symm hk), ih h.2]

/-- **What is left over of an object is kept** behind the known fields. -/
theorem keeps_leftOver {names : List String} {known : List (String × Option Json)}
    (hknown : Known names known) (fs : Fields) :
    Keeps names (.obj fs) (.obj (written known ++ leftOver names fs)) := by
  intro k hk
  have hnone : (written known).filter (fun f => f.1 = k) = [] := by
    rw [List.filter_eq_nil_iff]
    intro f hf hfk
    exact hk (of_decide_eq_true hfk ▸ hknown.named _ (mem_written.mp hf))
  have hvalues : (Json.obj (written known ++ leftOver names fs)).valuesUnder k =
      (Json.obj (leftOver names fs)).valuesUnder k := by
    show ((written known ++ leftOver names fs).filter _).map Prod.snd = _
    rw [List.filter_append, hnone]
    rfl
  have hdistinct : ((leftOver names fs).map Prod.fst).Nodup := nodup_mergeFields _
  rw [hvalues, valuesUnder_of_nodup hdistinct, lookup_leftOver hk, lookup_reverse]

end Keeps

/-! ## Fields that a name takes -/

section Taken

variable {α : Type} {read : Json → Option α} {fs : Fields} {n other : String} {o : Option Json}

theorem valuesUnder_of_filter {wanted : List String} (hn : n ∈ wanted) {gs : Fields}
    (h : fs.filter (fun f => f.1 ∈ wanted) = gs) :
    (Json.obj fs).valuesUnder n = (Json.obj gs).valuesUnder n := by
  show (fs.filter _).map Prod.snd = (gs.filter _).map Prod.snd
  rw [← h, List.filter_filter]
  refine congrArg (List.map Prod.snd) (List.filter_congr fun f _ => ?_)
  by_cases hf : f.1 = n
  · simp [hf, hn]
  · simp [hf]

theorem valuesUnder_singleton (f : String × Json) (n : String) :
    (Json.obj [f]).valuesUnder n = if f.1 = n then [f.2] else [] := by
  show ([f].filter _).map Prod.snd = _
  by_cases hf : f.1 = n
  · rw [if_pos hf, List.filter_cons_of_pos (by simpa using hf)]
    rfl
  · rw [if_neg hf, List.filter_cons_of_neg (by simpa using hf)]
    rfl

/-- What a field takes: nothing, or the one field that goes by one of its names. -/
theorem of_once {wanted : List String} (h : once wanted fs = some o) :
    o = none ∧ (∀ n ∈ wanted, (Json.obj fs).valuesUnder n = []) ∨
    ∃ f : String × Json, f.1 ∈ wanted ∧ o = some f.2 ∧
      ∀ n ∈ wanted, (Json.obj fs).valuesUnder n = if f.1 = n then [f.2] else [] := by
  rw [once] at h
  split at h
  · next hnil =>
    exact .inl ⟨(Option.some.inj h).symm, fun n hn => valuesUnder_of_filter hn hnil⟩
  · next f hf =>
    have hmem : f ∈ fs.filter fun f => f.1 ∈ wanted := hf ▸ List.mem_cons_self
    refine .inr ⟨f, of_decide_eq_true (List.mem_filter.mp hmem).2, (Option.some.inj h).symm,
      fun n hn => ?_⟩
    rw [valuesUnder_of_filter hn hf, valuesUnder_singleton]
  · exact absurd h (by simp)

theorem under?_of_once (h : once [n] fs = some o) : (Json.obj fs).under? n = present o := by
  rw [under?]
  rcases of_once h with ⟨rfl, hnone⟩ | ⟨f, hf, rfl, hvalues⟩
  · rw [hnone n List.mem_cons_self]
    rfl
  · rw [hvalues n List.mem_cons_self, if_pos (List.mem_singleton.mp hf)]
    rfl

theorem under?_or_of_once (hne : n ≠ other) (h : once [n, other] fs = some o) :
    ((Json.obj fs).under? n).or ((Json.obj fs).under? other) = present o := by
  rw [under?, under?]
  rcases of_once h with ⟨rfl, hnone⟩ | ⟨f, hf, rfl, hvalues⟩
  · rw [hnone n (by simp), hnone other (by simp)]
    rfl
  · rw [hvalues n (by simp), hvalues other (by simp)]
    rcases List.mem_pair.mp hf with hf | hf
    · rw [if_pos hf, if_neg (hf ▸ hne)]
      exact Option.or_none
    · rw [if_pos hf, if_neg (hf ▸ hne.symm)]
      rfl

/-! An optional field is read from what is there, and a list item by item. -/

theorem rel_present {wanted : List String} {a : Option α} (h : optional read wanted fs = some a) :
    ∃ o, once wanted fs = some o ∧ Option.Rel (fun v a => read v = some a) (present o) a := by
  rw [optional, defaulted] at h
  split at h
  · next v hv =>
    refine ⟨some v, hv, ?_⟩
    by_cases hnull : v = .null
    · subst hnull
      rw [← Option.some.inj h]
      exact .none
    · rw [nullable_of_ne hnull] at h
      obtain ⟨b, hb, rfl⟩ := Option.map_eq_some_iff.mp h
      have hpresent : present (some v) = some v := by
        cases v <;> first | exact absurd rfl hnull | rfl
      rw [hpresent]
      exact .some hb
  · next hnone =>
    rw [← Option.some.inj h]
    exact ⟨none, hnone, .none⟩
  · exact absurd h (by simp)

theorem rel_of_optional {a : Option α} (h : optional read [n] fs = some a) :
    Option.Rel (fun v a => read v = some a) ((Json.obj fs).under? n) a := by
  obtain ⟨o, ho, hrel⟩ := rel_present h
  rwa [under?_of_once ho]

theorem forall₂_of_list? {vs : List Json} {as : List α} (h : list? read (.arr vs) = some as) :
    Forall₂ (fun v a => read v = some a) vs as := by
  rw [list?] at h
  induction vs generalizing as with
  | nil =>
      rw [← Option.some.inj h]
      exact .nil
  | cons v vs ih =>
      rw [List.mapM_cons] at h
      obtain ⟨a, ha, h⟩ := Option.bind_eq_some_iff.mp h
      obtain ⟨as, has, h⟩ := Option.bind_eq_some_iff.mp h
      rw [← Option.some.inj h]
      exact .cons ha (ih has)

theorem itemsUnder_eq {vs : List Json} {v : Json} (h : v.under? n = some (.arr vs)) :
    v.itemsUnder n = vs := by
  rw [itemsUnder, h]

theorem itemsUnder_of_none {v : Json} (h : v.under? n = none) : v.itemsUnder n = [] := by
  rw [itemsUnder, h]

theorem forall₂_of_optional {a : Option (List α)} (h : optional (list? read) [n] fs = some a) :
    Forall₂ (fun v a => read v = some a) ((Json.obj fs).itemsUnder n) (a.getD []) := by
  have hrel := rel_of_optional h
  generalize hv : (Json.obj fs).under? n = o at hrel
  cases hrel with
  | none =>
      rw [itemsUnder_of_none hv]
      exact .nil
  | some hlist =>
      obtain ⟨vs, rfl, -⟩ := of_list? hlist
      rw [itemsUnder_eq hv]
      exact forall₂_of_list? hlist

theorem forall₂_of_defaulted {as : List α} (h : defaulted [] (list? read) [n] fs = some as) :
    Forall₂ (fun v a => read v = some a) ((Json.obj fs).itemsUnder n) as := by
  rw [defaulted] at h
  split at h
  · next v hv =>
    obtain ⟨vs, rfl, -⟩ := of_list? h
    rw [itemsUnder_eq (under?_of_once hv)]
    exact forall₂_of_list? h
  · next hnone =>
    rw [← Option.some.inj h, itemsUnder_of_none (under?_of_once hnone)]
    exact .nil
  · exact absurd h (by simp)

/-- A list that was written is found item by item. -/
theorem itemsUnder_of_once {write : α → Json} {as : List α}
    (h : once [n] fs = some (some (.arr (as.map write)))) :
    (Json.obj fs).itemsUnder n = as.map write :=
  itemsUnder_eq (under?_of_once h)

theorem itemsUnder_of_once_map {write : α → Json} {a : Option (List α)}
    (h : once [n] fs = some (a.map fun as => .arr (as.map write))) :
    (Json.obj fs).itemsUnder n = (a.getD []).map write := by
  cases a with
  | none => exact itemsUnder_of_none (under?_of_once h)
  | some as => exact itemsUnder_of_once h

theorem present_map {write : α → Json} (hwrite : ∀ a, write a ≠ .null) (a : Option α) :
    present (a.map write) = a.map write := by
  cases a with
  | none => rfl
  | some a =>
      have hne := hwrite a
      rw [Option.map_some]
      generalize write a = v at hne
      cases v <;> first | exact absurd rfl hne | rfl

end Taken

end Json

/-! ## One by one -/

section

variable {α β γ : Type} {R : α → β → Prop} {S : α → γ → Prop} {f : β → γ}

theorem rel_map {a : Option α} {b : Option β} (h : Option.Rel R a b)
    (hS : ∀ x, ∀ y ∈ b, R x y → S x (f y)) : Option.Rel S a (b.map f) := by
  cases h with
  | none => exact .none
  | some h => exact .some (hS _ _ rfl h)

theorem forall₂_map {as : List α} {bs : List β} (h : Forall₂ R as bs)
    (hS : ∀ x, ∀ y ∈ bs, R x y → S x (f y)) : Forall₂ S as (bs.map f) := by
  induction h with
  | nil => exact .nil
  | cons h _ ih =>
      exact .cons (hS _ _ List.mem_cons_self h) (ih fun x y hy => hS x y (List.mem_cons_of_mem _ hy))

/-- The same with other members in their places, of which something is the same. -/
theorem forall₂_map_of_label {δ : Type} {label : β → δ} {as : List α} {bs cs : List β}
    (h : Forall₂ R as bs) (hlabels : bs.map label = cs.map label)
    (hS : ∀ x y z, R x y → label z = label y → S x (f z)) : Forall₂ S as (cs.map f) := by
  induction h generalizing cs with
  | nil =>
      rw [List.map_eq_nil_iff.mp hlabels.symm]
      exact .nil
  | cons h _ ih =>
      cases cs with
      | nil => exact absurd hlabels (by simp)
      | cons c cs =>
          rw [List.map_cons, List.map_cons, List.cons.injEq] at hlabels
          exact .cons (hS _ _ _ h hlabels.1.symm) (ih hlabels.2)

end

/-! ## The records of a document -/

open Json (Keeps forall₂_of_defaulted forall₂_of_optional itemsUnder_of_once itemsUnder_of_once_map
  keeps_leftOver present present_map rel_of_optional rel_present under?_of_once
  under?_or_of_once)

variable {d : Nat} {v : Json}

theorem ExternalReference.keeps_toJson {r : ExternalReference} (h : ofJson? v = some r) :
    Keeps names v r.toJson := by
  obtain ⟨fs, rfl, hread⟩ := ofJson?_eq_some_iff.mp h
  rw [toJson_eq, ← hread.extra]
  exact keeps_leftOver (knows r) fs

theorem Property.keeps_toJson {p : Property} (h : ofJson? v = some p) :
    Keeps ["name", "value"] v p.toJson := by
  obtain ⟨fs, rfl, hread⟩ := ofJson?_eq_some_iff.mp h
  rw [toJson_eq, ← hread.extra]
  exact keeps_leftOver (knows p) fs

/-- An entry that has come to depend on more keeps what was read. -/
theorem Dependency.keeps_toJson {e e' : Dependency} (h : ofJson? v = some e)
    (hextra : e'.extra = e.extra) : Keeps ["ref", "dependsOn"] v e'.toJson := by
  obtain ⟨fs, rfl, hread⟩ := ofJson?_eq_some_iff.mp h
  rw [toJson_eq, hextra, ← hread.extra]
  exact keeps_leftOver (knows e') fs

namespace Component

/-- What is kept of a component. -/
structure Kept (v w : Json) : Prop where
  fields : Keeps names v w
  /-- The identifier, by whichever of its names it went. -/
  bomRef : w.under? "bom-ref" = (v.under? "bom-ref").or (v.under? "bomRef")
  externalReferences : Forall₂ (Keeps ExternalReference.names) (v.itemsUnder "externalReferences")
    (w.itemsUnder "externalReferences")
  properties : Forall₂ (Keeps ["name", "value"]) (v.itemsUnder "properties")
    (w.itemsUnder "properties")

/-- An identifier is what stands under one of its names. -/
theorem bomRef_eq {fs : Fields} {o : Option String}
    (h : optional string? ["bom-ref", "bomRef"] fs = some o) :
    ((Json.obj fs).under? "bom-ref").or ((Json.obj fs).under? "bomRef") = o.map .str := by
  obtain ⟨w, hw, hrel⟩ := rel_present h
  rw [under?_or_of_once (by decide) hw]
  generalize present w = x at hrel
  cases hrel with
  | none => rfl
  | some hstr => rw [Json.eq_str_of_string? hstr, Option.map_some]

theorem kept_toJson {c : Component} (h : ofJson? v = some c) (hclean : c.Clean d) :
    Kept v c.toJson := by
  obtain ⟨fs, rfl, hread⟩ := ofJson?_eq_some_iff.mp h
  have hbomRef : once ["bom-ref"] (written c.known ++ c.extra) = some (c.bomRef.map .str) :=
    once_known hclean (by simp [known])
  have hreferences : once ["externalReferences"] (written c.known ++ c.extra) =
      some (c.externalReferences.map fun rs => .arr (rs.map ExternalReference.toJson)) :=
    once_known hclean (by simp [known])
  have hproperties : once ["properties"] (written c.known ++ c.extra) =
      some (c.properties.map fun ps => .arr (ps.map Property.toJson)) :=
    once_known hclean (by simp [known])
  rw [toJson_eq]
  refine ⟨?_, ?_, ?_, ?_⟩
  · rw [← hread.extra]
    exact keeps_leftOver (knows c) fs
  · rw [under?_of_once hbomRef, present_map Json.str_ne_null, bomRef_eq hread.bomRef]
  · rw [itemsUnder_of_once_map hreferences]
    exact forall₂_map (forall₂_of_optional hread.externalReferences) fun _ _ _ hr =>
      ExternalReference.keeps_toJson hr
  · rw [itemsUnder_of_once_map hproperties]
    exact forall₂_map (forall₂_of_optional hread.properties) fun _ _ _ hp =>
      Property.keeps_toJson hp

end Component

namespace Metadata

/-- What is kept of what a document says about itself. -/
structure Kept (v w : Json) : Prop where
  fields : Keeps ["component"] v w
  component : Option.Rel Component.Kept (v.under? "component") (w.under? "component")

theorem kept_toJson {m : Metadata} (h : ofJson? v = some m) (hclean : m.Clean d) :
    Kept v m.toJson := by
  obtain ⟨fs, rfl, hread⟩ := ofJson?_eq_some_iff.mp h
  have hwritten : once ["component"] (written m.known ++ m.extra) =
      some (m.component.map Component.toJson) := once_known hclean (by simp [known])
  rw [toJson_eq]
  refine ⟨?_, ?_⟩
  · rw [← hread.extra]
    exact keeps_leftOver (knows m) fs
  · rw [under?_of_once hwritten, present_map Component.toJson_ne_null]
    exact rel_map (rel_of_optional hread.component) fun _ c hc hread =>
      Component.kept_toJson hread (hclean.component c hc)

end Metadata

namespace Bom

/-- What is kept of a document: all of it, in front of what was added. -/
structure Kept (v w : Json) : Prop where
  fields : Keeps names v w
  metadata : Option.Rel Metadata.Kept (v.under? "metadata") (w.under? "metadata")
  components : Forall₂ Component.Kept (v.itemsUnder "components")
    ((w.itemsUnder "components").take (v.itemsUnder "components").length)
  dependencies : Forall₂ (Keeps ["ref", "dependsOn"]) (v.itemsUnder "dependencies")
    ((w.itemsUnder "dependencies").take (v.itemsUnder "dependencies").length)

/-- `out` is `b` with more behind its components and entries; entries may depend on more. -/
structure Grows (b out : Bom) : Prop where
  rest : { out with components := b.components, dependencies := b.dependencies } = b
  components : b.components <+: out.components
  extras : (b.dependencies.getD []).map Dependency.extra <+:
    (out.dependencies.getD []).map Dependency.extra

section

variable {b out : Bom} (h : Grows b out)

include h

theorem Grows.format : out.format = b.format := (congrArg Bom.format h.rest :)

theorem Grows.version : out.version = b.version := (congrArg Bom.version h.rest :)

theorem Grows.metadata : out.metadata = b.metadata := (congrArg Bom.metadata h.rest :)

theorem Grows.extra : out.extra = b.extra := (congrArg Bom.extra h.rest :)

end

theorem Grows.refl (b : Bom) : Grows b b := ⟨rfl, List.prefix_rfl, List.prefix_rfl⟩

/-- **What was read is kept**, whatever was added to it. -/
theorem kept_toJson {b out : Bom} (h : ofJson? v = some b) (hgrows : Grows b out)
    (hclean : out.Clean d) : Kept v out.toJson := by
  obtain ⟨fs, rfl, hread⟩ := ofJson?_eq_some_iff.mp h
  have hmetadata : once ["metadata"] (written out.known ++ out.extra) =
      some (out.metadata.map Metadata.toJson) := once_known hclean (by simp [known])
  have hcomponents : once ["components"] (written out.known ++ out.extra) =
      some (some (.arr (out.components.map Component.toJson))) := once_known hclean (by simp [known])
  have hdependencies : once ["dependencies"] (written out.known ++ out.extra) =
      some (out.dependencies.map fun ds => .arr (ds.map Dependency.toJson)) :=
    once_known hclean (by simp [known])
  rw [toJson_eq]
  refine ⟨?_, ?_, ?_, ?_⟩
  · rw [hgrows.extra, ← hread.extra]
    exact keeps_leftOver (knows out) fs
  · rw [under?_of_once hmetadata, present_map Metadata.toJson_ne_null, hgrows.metadata]
    exact rel_map (rel_of_optional hread.metadata) fun _ m hm hread =>
      Metadata.kept_toJson hread (hclean.metadata m (hgrows.metadata ▸ hm))
  · have hread := forall₂_of_defaulted hread.components
    rw [itemsUnder_of_once hcomponents, hread.length_eq, ← List.map_take,
      ← List.prefix_iff_eq_take.mp hgrows.components]
    exact forall₂_map hread fun _ c hc hread =>
      Component.kept_toJson hread (hclean.components c (hgrows.components.subset hc))
  · have hread := forall₂_of_optional hread.dependencies
    have hextras := List.prefix_iff_eq_take.mp hgrows.extras
    rw [List.length_map, ← List.map_take] at hextras
    rw [itemsUnder_of_once_map hdependencies, hread.length_eq, ← List.map_take]
    exact forall₂_map_of_label hread hextras fun _ _ _ hread hextra =>
      Dependency.keeps_toJson hread hextra

end Bom

end BomAssembly
