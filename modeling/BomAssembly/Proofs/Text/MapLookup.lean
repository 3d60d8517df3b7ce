import BomAssembly.Text.SortedMap
import Mathlib.Data.List.Induction
import Mathlib.Data.List.Nodup

/-!
# Maps from text, as sets of bindings

An ordered map is determined by what each key is bound to. A binding is found by its key exactly when
it is one of the entries (`get?_eq_some_iff`), and putting a binding in changes the answer for its own
key only (`get?_insert`). Bindings put into an empty map in key order come out as they went in; where no
key comes twice, each key is bound to what stands beside it in the list (`get?_ofList_iff`).
-/

namespace BomAssembly.Text

variable {α : Type}

/-! ## Ordered lists of bindings -/

theorem insertEntry_last {key : String} {value : α} {l : List (String × α)}
    (h : ∀ e ∈ l, e.1 < key) : insertEntry key value l = l ++ [(key, value)] := by
  induction l with
  | nil => rfl
  | cons e l ih =>
      have hlt : e.1 < key := h e List.mem_cons_self
      have hne : key ≠ e.1 := fun he => String.lt_irrefl key (he ▸ hlt)
      rw [insertEntry, if_neg (String.lt_asymm hlt), if_neg hne,
        ih (fun x hx => h x (List.mem_cons_of_mem _ hx)), List.cons_append]

/-- In an ordered list a key is found where it stands. -/
theorem lookup_eq_some_iff {key : String} {value : α} {l : List (String × α)}
    (h : l.Pairwise (fun a b => a.1 < b.1)) :
    l.lookup key = some value ↔ (key, value) ∈ l := by
  induction l with
  | nil => simp
  | cons e l ih =>
      obtain ⟨k, v⟩ := e
      have hhead := (List.pairwise_cons.mp h).1
      rw [List.lookup_cons, List.mem_cons]
      by_cases hk : key = k
      · subst hk
        have hnot : (key, value) ∉ l := fun hm => String.lt_irrefl key (hhead _ hm)
        simp [hnot, eq_comm]
      · have hbeq : (key == k) = false := by simpa using hk
        rw [hbeq]
        simp [hk, ih (List.pairwise_cons.mp h).2]

/-- What an ordered list holds after a binding was put in. -/
theorem mem_insertEntry_iff {key : String} {value : α} {e : String × α} {l : List (String × α)}
    (h : l.Pairwise (fun a b => a.1 < b.1)) :
    e ∈ insertEntry key value l ↔ e = (key, value) ∨ (e ∈ l ∧ e.1 ≠ key) := by
  induction l with
  | nil => simp [insertEntry]
  | cons d l ih =>
      obtain ⟨k, v⟩ := d
      have hhead := (List.pairwise_cons.mp h).1
      have hrest := ih (List.pairwise_cons.mp h).2
      rw [insertEntry]
      by_cases hlt : key < k
      · -- everything in the list is above the new key
        have hother : ∀ x ∈ (k, v) :: l, x.1 ≠ key := by
          intro x hx he
          have habove : key < x.1 := by
            rcases List.mem_cons.mp hx with hx | hx
            · rw [hx]
              exact hlt
            · exact String.lt_trans hlt (hhead x hx)
          exact String.lt_irrefl key (he ▸ habove)
        rw [if_pos hlt, List.mem_cons]
        exact or_congr_right ⟨fun hm => ⟨hm, hother e hm⟩, fun hm => hm.1⟩
      · rw [if_neg hlt]
        by_cases hk : key = k
        · subst hk
          have hother : ∀ x ∈ l, x.1 ≠ key := fun x hx he => String.lt_irrefl key (he ▸ hhead x hx)
          rw [if_pos rfl, List.mem_cons, List.mem_cons]
          constructor
          · rintro (hm | hm)
            · exact .inl hm
            · exact .inr ⟨.inr hm, hother e hm⟩
          · rintro (hm | ⟨hm | hm, hne⟩)
            · exact .inl hm
            · exact absurd (congrArg Prod.fst hm) hne
            · exact .inr hm
        · rw [if_neg hk, List.mem_cons, List.mem_cons, hrest]
          constructor
          · rintro (hm | hm | ⟨hm, hne⟩)
            · exact .inr ⟨.inl hm, by rw [hm]; exact Ne.symm hk⟩
            · exact .inl hm
            · exact .inr ⟨.inr hm, hne⟩
          · rintro (hm | ⟨hm | hm, hne⟩)
            · exact .inr (.inl hm)
            · exact .inl hm
            · exact .inr (.inr ⟨hm, hne⟩)

/-- Lists in the order of their keys, with the same members, are the same. -/
theorem eq_of_mem_iff_of_ordered {key : α → String} {l l' : List α}
    (h : l.Pairwise fun a b => key a < key b) (h' : l'.Pairwise fun a b => key a < key b)
    (hmem : ∀ a, a ∈ l ↔ a ∈ l') : l = l' := by
  have hnodup : ∀ {k : List α}, (k.Pairwise fun a b => key a < key b) → k.Nodup := by
    intro k hk
    refine hk.imp ?_
    rintro a _ hlt rfl
    exact String.lt_irrefl _ hlt
  have hperm : l.Perm l' := (List.perm_ext_iff_of_nodup (hnodup h) (hnodup h')).mpr hmem
  refine hperm.eq_of_pairwise ?_ h h'
  intro a b _ _ hab hba
  exact absurd hba (String.lt_asymm hab)

/-! ## Maps -/

namespace StringMap

variable {m : StringMap α} {key : String} {value : α}

theorem get?_eq_some_iff : m.get? key = some value ↔ (key, value) ∈ m.entries :=
  lookup_eq_some_iff m.sorted

theorem mem_insert_iff {e : String × α} :
    e ∈ (m.insert key value).entries ↔ e = (key, value) ∨ (e ∈ m.entries ∧ e.1 ≠ key) :=
  mem_insertEntry_iff m.sorted

@[simp] theorem get?_empty : (empty : StringMap α).get? key = none := rfl

/-- **A map is determined by what its keys are bound to.** -/
theorem ext_get? {n : StringMap α} (h : ∀ key, m.get? key = n.get? key) : m = n := by
  have hmem : ∀ e, e ∈ m.entries ↔ e ∈ n.entries := by
    intro e
    rw [← get?_eq_some_iff, ← get?_eq_some_iff, h]
  exact ext (eq_of_mem_iff_of_ordered m.sorted n.sorted hmem)

/-- **Putting a binding in changes the answer for its own key only.** -/
theorem get?_insert (k : String) :
    (m.insert key value).get? k = if k = key then some value else m.get? k := by
  apply Option.ext
  intro v
  rw [get?_eq_some_iff, mem_insert_iff]
  by_cases hk : k = key
  · subst hk
    simp [eq_comm]
  · simp [hk, get?_eq_some_iff]

@[simp] theorem get?_insert_self : (m.insert key value).get? key = some value := by
  rw [get?_insert, if_pos rfl]

theorem get?_insert_of_ne {k : String} (h : k ≠ key) :
    (m.insert key value).get? k = m.get? k := by
  rw [get?_insert, if_neg h]

theorem contains_iff : m.contains key = true ↔ ∃ v, m.get? key = some v := by
  rw [contains, Option.isSome_iff_exists]

theorem contains_eq_false_iff : m.contains key = false ↔ m.get? key = none := by
  rw [contains, Option.isSome_eq_false_iff, Option.isNone_iff_eq_none]

/-- **The bindings of a map, put into an empty one in their order, are the map.** -/
theorem foldl_insert_entries (m : StringMap α) :
    m.entries.foldl (fun n e => n.insert e.1 e.2) empty = m := by
  have key : ∀ (l : List (String × α)) (n : StringMap α),
      (n.entries ++ l).Pairwise (fun a b => a.1 < b.1) →
      (l.foldl (fun n e => n.insert e.1 e.2) n).entries = n.entries ++ l := by
    intro l
    induction l with
    | nil => exact fun n _ => (List.append_nil _).symm
    | cons e l ih =>
        intro n h
        have hbefore : ∀ x ∈ n.entries, x.1 < e.1 := fun x hx =>
          (List.pairwise_append.mp h).2.2 x hx e List.mem_cons_self
        have hinsert : (n.insert e.1 e.2).entries = n.entries ++ [e] := insertEntry_last hbefore
        rw [List.foldl_cons, ih _ (by rw [hinsert]; simpa using h), hinsert]
        simp
  exact ext (key m.entries empty m.sorted)

theorem ofList_concat (l : List (String × α)) (e : String × α) :
    ofList (l ++ [e]) = (ofList l).insert e.1 e.2 := by
  rw [ofList, List.foldl_append]
  rfl

/-- What is in a map was put into it. -/
theorem mem_of_mem_ofList {e : String × α} {l : List (String × α)} (h : e ∈ (ofList l).entries) :
    e ∈ l := by
  induction l using List.reverseRecOn with
  | nil => exact absurd h List.not_mem_nil
  | append_singleton l d ih =>
      rw [ofList_concat] at h
      rcases mem_insert_iff.mp h with rfl | ⟨h, -⟩
      · exact List.mem_append_right _ (List.mem_singleton_self _)
      · exact List.mem_append_left _ (ih h)

/-- **Where no key comes twice, each key is bound to what the list has for it.** -/
theorem get?_ofList_iff {l : List (String × α)} (h : (l.map Prod.fst).Nodup) :
    (ofList l).get? key = some value ↔ (key, value) ∈ l := by
  induction l using List.reverseRecOn with
  | nil => simp [ofList]
  | append_singleton l e ih =>
      rw [List.map_append, List.nodup_append] at h
      obtain ⟨hl, -, hne⟩ := h
      rw [ofList_concat, get?_insert, List.mem_append, List.mem_singleton]
      by_cases hkey : key = e.1
      · subst hkey
        -- the key is new, so nothing before it is bound to it
        have hnot : (e.1, value) ∉ l := fun hmem =>
          hne e.1 (List.mem_map.mpr ⟨_, hmem, rfl⟩) e.1 (List.mem_singleton_self _) rfl
        rw [if_pos rfl, or_iff_right hnot, Option.some_inj, Prod.ext_iff]
        exact ⟨fun hv => ⟨rfl, hv.symm⟩, fun hv => hv.2.symm⟩
      · have hother : (key, value) ≠ e := fun he => hkey (congrArg Prod.fst he)
        rw [if_neg hkey, ih hl, or_iff_left hother]

/-- **Of fields that may be without a value**, those with one were put into a map. -/
theorem get?_ofList_of_mem {fields : List (String × Option α)} {field : Option α}
    (h : (fields.map Prod.fst).Nodup) (hfield : (key, field) ∈ fields) :
    (ofList (fields.filterMap fun f => f.2.map fun v => (f.1, v))).get? key = field := by
  have hkeys : ((fields.filterMap fun f => f.2.map fun v => (f.1, v)).map Prod.fst).Nodup := by
    refine List.pairwise_map.mpr (List.pairwise_filterMap.mpr ((List.pairwise_map.mp h).imp ?_))
    intro f g hne b hb d hd
    obtain ⟨v, -, rfl⟩ := Option.map_eq_some_iff.mp hb
    obtain ⟨w, -, rfl⟩ := Option.map_eq_some_iff.mp hd
    exact hne
  apply Option.ext
  intro v
  rw [get?_ofList_iff hkeys]
  constructor
  · intro hmem
    obtain ⟨g, hg, hv⟩ := List.mem_filterMap.mp hmem
    obtain ⟨w, hw, heq⟩ := Option.map_eq_some_iff.mp hv
    obtain ⟨hfst, rfl⟩ := Prod.mk.inj heq
    -- the key stands for one field only
    obtain rfl := List.inj_on_of_nodup_map h hg hfield hfst
    exact hw
  · rintro rfl
    exact List.mem_filterMap.mpr ⟨(key, some v), hfield, rfl⟩

end StringMap

end BomAssembly.Text
