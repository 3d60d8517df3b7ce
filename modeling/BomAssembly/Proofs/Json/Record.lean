import BomAssembly.Json.Record
import BomAssembly.Proofs.Fallible
import BomAssembly.Proofs.Json.Extent

/-!
# Known fields and the others

A record takes its fields out of an object by their names and carries the others along, each once.
What it carries along has none of its names, no name twice, and no such values either (`Carried`): it
is the last value that was written under each name (`lookup_leftOver`). Behind the known fields of the
object that is written it is taken as it is (`leftOver_written`), and every known field is found again
(`once_written`).
-/

namespace BomAssembly.Json

/-! ## Fields put in their places -/

section Merge

variable {α : Type}

theorem lookup_cons_eq (n : String) (v : α) (fs : List (String × α)) (k : String) :
    ((n, v) :: fs).lookup k = if k = n then some v else fs.lookup k := by
  rw [List.lookup_cons]
  by_cases hk : k = n
  · rw [beq_iff_eq.mpr hk, if_pos hk]
  · rw [beq_eq_false_iff_ne.mpr hk, if_neg hk]

theorem lookup_putField (name : String) (value : α) (fs : List (String × α)) (k : String) :
    (putField name value fs).lookup k = if k = name then some value else fs.lookup k := by
  induction fs with
  | nil => exact lookup_cons_eq name value [] k
  | cons f fs ih =>
      obtain ⟨n, v⟩ := f
      rw [putField]
      by_cases hname : n = name
      · subst hname
        rw [if_pos rfl, lookup_cons_eq, lookup_cons_eq]
        split <;> rfl
      · rw [if_neg hname, lookup_cons_eq, ih, lookup_cons_eq]
        by_cases hk : k = n
        · rw [if_pos hk, if_neg fun heq => hname (hk.symm.trans heq), if_pos hk]
        · rw [if_neg hk, if_neg hk]

theorem mem_of_mem_putField {name : String} {value : α} {fs : List (String × α)}
    {f : String × α} (h : f ∈ putField name value fs) : f = (name, value) ∨ f ∈ fs := by
  induction fs with
  | nil => exact .inl (List.mem_singleton.mp h)
  | cons g fs ih =>
      obtain ⟨n, v⟩ := g
      rw [putField] at h
      split at h
      · rcases List.mem_cons.mp h with h | h
        · exact .inl h
        · exact .inr (List.mem_cons_of_mem _ h)
      · rcases List.mem_cons.mp h with h | h
        · exact .inr (h ▸ List.mem_cons_self)
        · exact (ih h).imp_right (List.mem_cons_of_mem _)

theorem nodup_putField {name : String} {value : α} {fs : List (String × α)}
    (h : (fs.map Prod.fst).Nodup) : ((putField name value fs).map Prod.fst).Nodup := by
  induction fs with
  | nil => exact List.pairwise_singleton _ _
  | cons f fs ih =>
      obtain ⟨n, v⟩ := f
      rw [List.map_cons, List.nodup_cons] at h
      rw [putField]
      split
      · next hname =>
        subst hname
        exact List.nodup_cons.mpr h
      · next hname =>
        refine List.nodup_cons.mpr ⟨fun hmem => ?_, ih h.2⟩
        obtain ⟨g, hg, hn⟩ := List.mem_map.mp hmem
        rcases mem_of_mem_putField hg with rfl | hg
        · exact hname hn.symm
        · exact h.1 (List.mem_map.mpr ⟨g, hg, hn⟩)

theorem putField_of_new {name : String} {value : α} {fs : List (String × α)}
    (h : name ∉ fs.map Prod.fst) : putField name value fs = fs ++ [(name, value)] := by
  induction fs with
  | nil => rfl
  | cons f fs ih =>
      obtain ⟨n, v⟩ := f
      rw [List.map_cons, List.mem_cons, not_or] at h
      rw [putField, if_neg fun heq => h.1 heq.symm, ih h.2]
      rfl

section Fold

variable (fs acc : List (String × α))

theorem lookup_foldl_putField (k : String) :
    (fs.foldl (fun acc f => putField f.1 f.2 acc) acc).lookup k =
      (fs.reverse.lookup k).or (acc.lookup k) := by
  induction fs generalizing acc with
  | nil => rfl
  | cons f fs ih =>
      rw [List.foldl_cons, ih, lookup_putField, List.reverse_cons, List.lookup_append,
        Option.or_assoc, lookup_cons_eq]
      by_cases hk : k = f.1
      · rw [if_pos hk, if_pos hk]
        rfl
      · rw [if_neg hk, if_neg hk]
        rfl

theorem mem_of_mem_foldl_putField {f : String × α}
    (h : f ∈ fs.foldl (fun acc f => putField f.1 f.2 acc) acc) : f ∈ fs ∨ f ∈ acc := by
  induction fs generalizing acc with
  | nil => exact .inr h
  | cons g fs ih =>
      rcases ih (putField g.1 g.2 acc) h with h | h
      · exact .inl (List.mem_cons_of_mem g h)
      · rcases mem_of_mem_putField h with rfl | h
        · exact .inl List.mem_cons_self
        · exact .inr h

theorem nodup_foldl_putField (h : (acc.map Prod.fst).Nodup) :
    ((fs.foldl (fun acc f => putField f.1 f.2 acc) acc).map Prod.fst).Nodup := by
  induction fs generalizing acc with
  | nil => exact h
  | cons f fs ih => exact ih (putField f.1 f.2 acc) (nodup_putField h)

theorem foldl_putField_of_nodup (h : ((acc ++ fs).map Prod.fst).Nodup) :
    fs.foldl (fun acc f => putField f.1 f.2 acc) acc = acc ++ fs := by
  induction fs generalizing acc with
  | nil => rw [List.foldl_nil, List.append_nil]
  | cons f fs ih =>
      have hsplit : acc ++ f :: fs = (acc ++ [f]) ++ fs := by rw [List.append_assoc]; rfl
      have hnew : f.1 ∉ acc.map Prod.fst := by
        rw [List.map_append, List.nodup_append] at h
        exact fun hmem => h.2.2 f.1 hmem f.1 (List.mem_map_of_mem List.mem_cons_self) rfl
      rw [List.foldl_cons, putField_of_new hnew, hsplit]
      exact ih (acc ++ [f]) (hsplit ▸ h)

end Fold

/-- Under each name stands what was written there last. -/
theorem lookup_mergeFields (fs : List (String × α)) (k : String) :
    (mergeFields fs).lookup k = fs.reverse.lookup k := by
  rw [mergeFields, lookup_foldl_putField]
  exact Option.or_none

theorem mem_of_mem_mergeFields {fs : List (String × α)} {f : String × α}
    (h : f ∈ mergeFields fs) : f ∈ fs :=
  (mem_of_mem_foldl_putField fs [] h).resolve_right List.not_mem_nil

theorem nodup_mergeFields (fs : List (String × α)) : ((mergeFields fs).map Prod.fst).Nodup :=
  nodup_foldl_putField fs [] List.nodup_nil

/-- Fields with different names stay as they are. -/
theorem mergeFields_of_nodup {fs : List (String × α)} (h : (fs.map Prod.fst).Nodup) :
    mergeFields fs = fs :=
  foldl_putField_of_nodup fs [] h

end Merge

/-! ## Values with each field once -/

theorem mergedItems_eq_map (vs : List Json) : mergedItems vs = vs.map merged := by
  induction vs with
  | nil => rfl
  | cons v vs ih => rw [mergedItems, ih, List.map_cons]

theorem mergedMembers_eq_map (fs : Fields) :
    mergedMembers fs = fs.map fun f => (f.1, f.2.merged) := by
  induction fs with
  | nil => rfl
  | cons f fs ih => rw [mergedMembers, ih, List.map_cons]

/-- Values that merging does not change. -/
theorem map_merged_of_forall {fs : Fields} (h : ∀ f ∈ fs, f.2.merged = f.2) :
    (fs.map fun f => (f.1, f.2.merged)) = fs := by
  have hsame : ∀ f ∈ fs, (f.1, f.2.merged) = id f := fun f hf => Prod.ext rfl (h f hf)
  rw [List.map_congr_left hsame, List.map_id]

/-- **Merging a second time changes nothing.** -/
theorem merged_merged (v : Json) : v.merged.merged = v.merged := by
  induction v using Json.induction with
  | arr vs ih =>
      rw [merged, merged, mergedItems_eq_map, mergedItems_eq_map, List.map_map]
      exact congrArg Json.arr (List.map_congr_left ih)
  | obj fs ih =>
      have hvalues : ∀ f ∈ mergeFields (mergedMembers fs), f.2.merged = f.2 := by
        intro f hf
        have hmem := mem_of_mem_mergeFields hf
        rw [mergedMembers_eq_map] at hmem
        obtain ⟨g, hg, rfl⟩ := List.mem_map.mp hmem
        exact ih g hg
      have hsame : mergedMembers (mergeFields (mergedMembers fs)) =
          mergeFields (mergedMembers fs) := by
        rw [mergedMembers_eq_map]
        exact map_merged_of_forall hvalues
      rw [merged, merged, hsame, mergeFields_of_nodup (nodup_mergeFields _)]
  | _ => rfl

theorem Fits.merged {v : Json} {d : Nat} (h : v.Fits d) : v.merged.Fits d := by
  induction v using Json.induction generalizing d with
  | arr vs ih =>
      obtain ⟨d, rfl⟩ := h.pos_of_arr
      rw [Json.merged, mergedItems_eq_map, fits_arr_iff]
      intro w hw
      obtain ⟨v, hv, rfl⟩ := List.mem_map.mp hw
      exact ih v hv (fits_arr_iff.mp h v hv)
  | obj fs ih =>
      obtain ⟨d, rfl⟩ := h.pos_of_obj
      rw [Json.merged, fits_obj_iff]
      intro f hf
      have hmem := mem_of_mem_mergeFields hf
      rw [mergedMembers_eq_map] at hmem
      obtain ⟨g, hg, rfl⟩ := List.mem_map.mp hmem
      exact ih g hg (fits_obj_iff.mp h g hg)
  | _ => exact h

/-! ## What is carried along -/

/-- Fields that a record with these names carries along: none of them has one of the names, no two have
one name, and their values are merged and fit. -/
structure Carried (names : List String) (d : Nat) (extra : Fields) : Prop where
  fresh : ∀ f ∈ extra, f.1 ∉ names
  nodup : (extra.map Prod.fst).Nodup
  merged : ∀ f ∈ extra, f.2.merged = f.2
  fits : ∀ f ∈ extra, f.2.Fits d

theorem Carried.nil (names : List String) (d : Nat) : Carried names d [] where
  fresh _ hf := absurd hf List.not_mem_nil
  nodup := List.nodup_nil
  merged _ hf := absurd hf List.not_mem_nil
  fits _ hf := absurd hf List.not_mem_nil

/-- **What is left over is carried along.** -/
theorem carried_leftOver {fs : Fields} {d : Nat} (h : ∀ f ∈ fs, f.2.Fits d) (names : List String) :
    Carried names d (leftOver names fs) := by
  -- every field that is left over was written, but for the merging of its value
  have hof : ∀ f ∈ leftOver names fs, ∃ g ∈ fs, g.1 ∉ names ∧ f = (g.1, g.2.merged) := by
    intro f hf
    obtain ⟨g, hg, rfl⟩ := List.mem_map.mp (mem_of_mem_mergeFields hf)
    obtain ⟨hg, hnew⟩ := List.mem_filter.mp hg
    exact ⟨g, hg, of_decide_eq_true hnew, rfl⟩
  refine ⟨fun f hf => ?_, nodup_mergeFields _, fun f hf => ?_, fun f hf => ?_⟩
  · obtain ⟨g, -, hnew, rfl⟩ := hof f hf
    exact hnew
  · obtain ⟨g, -, -, rfl⟩ := hof f hf
    exact merged_merged g.2
  · obtain ⟨g, hg, -, rfl⟩ := hof f hf
    exact (h g hg).merged

/-- **Under each other name the value that was written last is left over**, merged. -/
theorem lookup_leftOver {names : List String} {k : String} (h : k ∉ names) (fs : Fields) :
    (leftOver names fs).lookup k = (fs.reverse.lookup k).map merged := by
  have hlookup : ∀ gs : Fields,
      ((gs.filter fun f => f.1 ∉ names).map fun f => (f.1, f.2.merged)).lookup k =
        (gs.lookup k).map merged := by
    intro gs
    induction gs with
    | nil => rfl
    | cons g gs ih =>
        obtain ⟨n, v⟩ := g
        by_cases hn : n ∈ names
        · have hk : k ≠ n := fun heq => h (heq ▸ hn)
          rw [List.filter_cons_of_neg (by simpa using hn), ih, lookup_cons_eq, if_neg hk]
        · rw [List.filter_cons_of_pos (by simpa using hn), List.map_cons, lookup_cons_eq, ih,
            lookup_cons_eq]
          split <;> rfl
  rw [leftOver, lookup_mergeFields, ← List.map_reverse, ← List.filter_reverse, hlookup]

/-! ## What is written -/

/-- Known fields that are written when they are there. -/
def written (known : List (String × Option Json)) : Fields :=
  known.filterMap fun f => f.2.map fun v => (f.1, v)

theorem field_eq {α : Type} (name : String) (write : α → Json) (o : Option α) :
    field name write o = written [(name, o.map write)] := by
  cases o <;> rfl

theorem written_append (known more : List (String × Option Json)) :
    written (known ++ more) = written known ++ written more :=
  List.filterMap_append

theorem mem_written {known : List (String × Option Json)} {f : String × Json} :
    f ∈ written known ↔ (f.1, some f.2) ∈ known := by
  rw [written, List.mem_filterMap]
  constructor
  · rintro ⟨⟨n, o⟩, hmem, heq⟩
    obtain ⟨v, rfl, rfl⟩ := Option.map_eq_some_iff.mp heq
    exact hmem
  · intro h
    exact ⟨_, h, rfl⟩

theorem filter_written (wanted : List String) (known : List (String × Option Json)) :
    (written known).filter (fun f => f.1 ∈ wanted) =
      written (known.filter fun f => f.1 ∈ wanted) := by
  induction known with
  | nil => rfl
  | cons f known ih =>
      obtain ⟨n, o⟩ := f
      cases o with
      | none =>
          by_cases hn : n ∈ wanted <;> simp_all [written]
      | some v =>
          by_cases hn : n ∈ wanted <;> simp_all [written]

/-- A field among fields with different names is the only one of its name. -/
theorem filter_eq_singleton {known : List (String × Option Json)} {n : String} {o : Option Json}
    {wanted : List String} (hdistinct : (known.map Prod.fst).Nodup) (hmem : (n, o) ∈ known)
    (hn : n ∈ wanted) (honly : ∀ f ∈ known, f.1 ∈ wanted → f.1 = n) :
    known.filter (fun f => f.1 ∈ wanted) = [(n, o)] := by
  induction known with
  | nil => exact absurd hmem List.not_mem_nil
  | cons f known ih =>
      rw [List.map_cons, List.nodup_cons] at hdistinct
      have hrest : ∀ g ∈ known, g.1 ∈ wanted → g.1 = n := fun g hg =>
        honly g (List.mem_cons_of_mem f hg)
      rcases List.mem_cons.mp hmem with rfl | hmem
      · have hnone : known.filter (fun f => f.1 ∈ wanted) = [] := by
          rw [List.filter_eq_nil_iff]
          intro g hg hwanted
          exact hdistinct.1 (List.mem_map.mpr ⟨g, hg, hrest g hg (of_decide_eq_true hwanted)⟩)
        rw [List.filter_cons_of_pos (by simpa using hn), hnone]
      · have hf : f.1 ∉ wanted := fun hwanted => hdistinct.1
          (List.mem_map.mpr ⟨(n, o), hmem, (honly f List.mem_cons_self hwanted).symm⟩)
        rw [List.filter_cons_of_neg (by simpa using hf), ih hdistinct.2 hmem hrest]

/-- The known fields of a record with these names: with different names, and these ones. -/
structure Known (names : List String) (known : List (String × Option Json)) : Prop where
  distinct : (known.map Prod.fst).Nodup
  named : ∀ f ∈ known, f.1 ∈ names

section Written

variable {names : List String} {known : List (String × Option Json)} {d : Nat} {extra : Fields}
  (hextra : Carried names d extra)

include hextra

section Known

variable (hknown : Known names known)

include hknown

/-- **A known field is found again**, also under other names of the record that nothing is written
under. -/
theorem once_written {wanted : List String} {n : String} {o : Option Json} (hmem : (n, o) ∈ known)
    (hn : n ∈ wanted) (hwanted : ∀ k ∈ wanted, k ∈ names)
    (honly : ∀ f ∈ known, f.1 ∈ wanted → f.1 = n) :
    once wanted (written known ++ extra) = some o := by
  have hnone : extra.filter (fun f => f.1 ∈ wanted) = [] := by
    rw [List.filter_eq_nil_iff]
    intro f hf
    simpa using fun hmem => hextra.fresh f hf (hwanted f.1 hmem)
  rw [once, List.filter_append, hnone, List.append_nil, filter_written,
    filter_eq_singleton hknown.distinct hmem hn honly]
  cases o <;> rfl

theorem once_written_self {n : String} {o : Option Json} (hmem : (n, o) ∈ known) :
    once [n] (written known ++ extra) = some o := by
  refine once_written hextra hknown hmem List.mem_cons_self (fun k hk => ?_) fun f _ hf => ?_
  · rw [List.mem_singleton.mp hk]
    exact hknown.named _ hmem
  · exact List.mem_singleton.mp hf

/-- **The others are left over as they were.** -/
theorem leftOver_written : leftOver names (written known ++ extra) = extra := by
  have hnone : (written known).filter (fun f => f.1 ∉ names) = [] := by
    rw [List.filter_eq_nil_iff]
    intro f hf
    simpa using hknown.named _ (mem_written.mp hf)
  have hall : extra.filter (fun f => f.1 ∉ names) = extra := by
    rw [List.filter_eq_self]
    intro f hf
    simpa using hextra.fresh f hf
  rw [leftOver, List.filter_append, hnone, List.nil_append, hall, map_merged_of_forall hextra.merged,
    mergeFields_of_nodup hextra.nodup]

end Known

/-- An object fits if what is written in it does. -/
theorem fits_written (hfits : ∀ f ∈ known, ∀ v ∈ f.2, v.Fits d) :
    (Json.obj (written known ++ extra)).Fits (d + 1) := by
  rw [fits_obj_iff]
  intro f hf
  rcases List.mem_append.mp hf with hf | hf
  · exact hfits _ (mem_written.mp hf) f.2 rfl
  · exact hextra.fits f hf

end Written

theorem fits_some {v : Json} {d : Nat} (h : v.Fits d) : ∀ w ∈ some v, w.Fits d := by
  intro w hw
  rw [← Option.some.inj hw]
  exact h

theorem fits_map {α : Type} {write : α → Json} {d : Nat} {o : Option α}
    (h : ∀ a ∈ o, (write a).Fits d) : ∀ v ∈ o.map write, v.Fits d := by
  intro v hv
  obtain ⟨a, ha, rfl⟩ := Option.map_eq_some_iff.mp hv
  exact h a ha

theorem fits_arr_map {α : Type} {write : α → Json} {d : Nat} {as : List α}
    (h : ∀ a ∈ as, (write a).Fits d) : (Json.arr (as.map write)).Fits (d + 1) := by
  rw [fits_arr_iff]
  intro v hv
  obtain ⟨a, ha, rfl⟩ := List.mem_map.mp hv
  exact h a ha

/-! ## Fields that are read -/

section Read

variable {α : Type} {read : Json → Option α} {write : α → Json} {wanted : List String} {fs : Fields}

theorem obj_of_fields? {v : Json} (h : v.fields? = some fs) : v = .obj fs := by
  unfold fields? at h
  split at h
  · rw [Option.some.inj h]
  · exact absurd h (by simp)

theorem required_of_once {v : Json} {a : α} (h : once wanted fs = some (some v))
    (hread : read v = some a) : required read wanted fs = some a := by
  rw [required, h]
  exact hread

theorem defaulted_of_once {value a : α} {v : Json} (h : once wanted fs = some (some v))
    (hread : read v = some a) : defaulted value read wanted fs = some a := by
  rw [defaulted, h]
  exact hread

theorem eq_str_of_string? {v : Json} {s : String} (h : string? v = some s) : v = .str s := by
  unfold string? at h
  split at h
  · rw [Option.some.inj h]
  · exact absurd h (by simp)

theorem str_ne_null (s : String) : Json.str s ≠ .null := nofun

theorem arr_ne_null (vs : List Json) : Json.arr vs ≠ .null := nofun

theorem obj_ne_null (fs : Fields) : Json.obj fs ≠ .null := nofun

theorem nullable_of_ne {v : Json} (h : v ≠ .null) : nullable read v = (read v).map some := by
  cases v <;> first | exact absurd rfl h | rfl

/-- An optional field that was written when it was there. -/
theorem optional_of_once {o : Option α} (h : once wanted fs = some (o.map write))
    (hread : ∀ a ∈ o, read (write a) = some a) (hnull : ∀ a, write a ≠ .null) :
    optional read wanted fs = some o := by
  rw [optional, defaulted, h]
  cases o with
  | none => rfl
  | some a =>
      show nullable read (write a) = _
      rw [nullable_of_ne (hnull a), hread a rfl]
      rfl

theorem required_string {s : String} (h : once wanted fs = some (some (.str s))) :
    required string? wanted fs = some s :=
  required_of_once h rfl

theorem defaulted_string {value s : String} (h : once wanted fs = some (some (.str s))) :
    defaulted value string? wanted fs = some s :=
  defaulted_of_once h rfl

theorem optional_string {o : Option String} (h : once wanted fs = some (o.map .str)) :
    optional string? wanted fs = some o :=
  optional_of_once h (fun _ _ => rfl) str_ne_null

theorem natBelow?_nat {bound n : Nat} (h : n < bound) : natBelow? bound (nat n) = some n := by
  have hrange : 0 ≤ (n : Int) ∧ (n : Int) < bound := by omega
  rw [nat, natBelow?, if_pos hrange, Int.toNat_natCast]

theorem natBelow?_lt {bound n : Nat} {v : Json} (h : natBelow? bound v = some n) : n < bound := by
  unfold natBelow? at h
  split at h
  · split at h
    · next hrange =>
      rw [← Option.some.inj h]
      omega
    · exact absurd h (by simp)
  · exact absurd h (by simp)

theorem list?_arr {as : List α} (h : ∀ a ∈ as, read (write a) = some a) :
    list? read (.arr (as.map write)) = some as := by
  rw [list?]
  induction as with
  | nil => rfl
  | cons a as ih =>
      rw [List.map_cons, List.mapM_cons, h a List.mem_cons_self,
        ih fun b hb => h b (List.mem_cons_of_mem a hb)]
      rfl

theorem list?_arr_self {read : Json → Option Json} {vs : List Json}
    (h : ∀ v ∈ vs, read v = some v) : list? read (.arr vs) = some vs := by
  have hread : list? read (.arr (vs.map id)) = some vs := list?_arr h
  rwa [List.map_id] at hread

/-! What was read comes from a field that was there. -/

theorem mem_of_once {v : Json} (h : once wanted fs = some (some v)) :
    ∃ f ∈ fs, f.1 ∈ wanted ∧ f.2 = v := by
  rw [once] at h
  split at h
  · exact absurd h (by simp)
  · next f heq =>
    obtain ⟨hmem, hname⟩ := List.mem_filter.mp (heq ▸ List.mem_cons_self : f ∈ fs.filter _)
    exact ⟨f, hmem, of_decide_eq_true hname, Option.some.inj (Option.some.inj h)⟩
  · exact absurd h (by simp)

theorem of_defaulted {value a : α} (h : defaulted value read wanted fs = some a) :
    a = value ∨ ∃ f ∈ fs, f.1 ∈ wanted ∧ read f.2 = some a := by
  rw [defaulted] at h
  split at h
  · next v hv =>
    obtain ⟨f, hf, hname, rfl⟩ := mem_of_once hv
    exact .inr ⟨f, hf, hname, h⟩
  · exact .inl (Option.some.inj h).symm
  · exact absurd h (by simp)

theorem of_optional {a : α} (h : optional read wanted fs = some (some a)) :
    ∃ f ∈ fs, f.1 ∈ wanted ∧ read f.2 = some a := by
  rcases of_defaulted h with heq | ⟨f, hf, hname, hread⟩
  · exact absurd heq (by simp)
  · refine ⟨f, hf, hname, ?_⟩
    by_cases hnull : f.2 = .null
    · rw [hnull] at hread
      exact absurd hread (by simp [nullable])
    · rw [nullable_of_ne hnull] at hread
      obtain ⟨b, hb, heq⟩ := Option.map_eq_some_iff.mp hread
      rw [hb, Option.some.inj heq]

theorem of_list? {v : Json} {as : List α} (h : list? read v = some as) :
    ∃ vs, v = .arr vs ∧ vs.mapM read = some as := by
  unfold list? at h
  split at h
  · exact ⟨_, rfl, h⟩
  · exact absurd h (by simp)

/-- Whatever is in a list was read from an item that fits. -/
theorem exists_of_list? {v : Json} {as : List α} {d : Nat} (h : list? read v = some as)
    (hv : v.Fits (d + 1)) : ∀ a ∈ as, ∃ w, w.Fits d ∧ read w = some a := by
  intro a ha
  obtain ⟨vs, rfl, hvs⟩ := of_list? h
  obtain ⟨w, hw, heq⟩ := exists_of_mem_mapM_some hvs a ha
  exact ⟨w, fits_arr_iff.mp hv w hw, heq⟩

theorem exists_of_defaulted_list? {as : List α} {d : Nat}
    (h : defaulted [] (list? read) wanted fs = some as) (hfits : ∀ f ∈ fs, f.2.Fits (d + 1)) :
    ∀ a ∈ as, ∃ w, w.Fits d ∧ read w = some a := by
  rcases of_defaulted h with rfl | ⟨f, hf, -, hread⟩
  · exact fun a ha => absurd ha List.not_mem_nil
  · exact exists_of_list? hread (hfits f hf)

theorem exists_of_optional_list? {o : Option (List α)} {d : Nat}
    (h : optional (list? read) wanted fs = some o) (hfits : ∀ f ∈ fs, f.2.Fits (d + 1)) :
    ∀ as ∈ o, ∀ a ∈ as, ∃ w, w.Fits d ∧ read w = some a := by
  rintro as rfl
  obtain ⟨f, hf, -, hread⟩ := of_optional h
  exact exists_of_list? hread (hfits f hf)

/-! A field that holds a list of any values keeps each as it is, with each field in it once. -/

/-- A list of any values, if there is one: with each field once, and they fit. -/
def Settled (d : Nat) (o : Option (List Json)) : Prop :=
  ∀ vs ∈ o, ∀ v ∈ vs, v.merged = v ∧ v.Fits d

section Settled

variable {d : Nat} {o : Option (List Json)}

theorem settled_of_optional (h : optional (list? fun v => some v.merged) wanted fs = some o)
    (hfits : ∀ f ∈ fs, f.2.Fits (d + 1)) : Settled d o := by
  intro vs hvs v hv
  obtain ⟨w, hw, heq⟩ := exists_of_optional_list? h hfits vs hvs v hv
  rw [← Option.some.inj heq]
  exact ⟨w.merged_merged, hw.merged⟩

theorem Settled.optional (h : Settled d o) (ho : once wanted fs = some (o.map .arr)) :
    optional (list? fun v => some v.merged) wanted fs = some o :=
  optional_of_once ho
    (fun vs hvs => list?_arr_self fun v hv => congrArg some (h vs hvs v hv).1) arr_ne_null

theorem Settled.fits (h : Settled d o) : ∀ v ∈ o.map Json.arr, v.Fits (d + 1) :=
  fits_map fun vs hvs => fits_arr_iff.mpr fun v hv => (h vs hvs v hv).2

end Settled

end Read

/-! ## Fields under other names -/

section Renamed

variable {names : List String} {g : String → String} (hg : ∀ k, g k ∈ names ↔ k ∈ names)
  (fs : Fields)

include hg

/-- Names that stand for the same field may be exchanged. -/
theorem once_renamed : once names (fs.map fun f => (g f.1, f.2)) = once names fs := by
  have hfilter : (fs.map fun f => (g f.1, f.2)).filter (fun f => f.1 ∈ names) =
      (fs.filter fun f => f.1 ∈ names).map fun f => (g f.1, f.2) := by
    rw [List.filter_map]
    refine congrArg _ (List.filter_congr fun f _ => ?_)
    exact decide_eq_decide.mpr (hg f.1)
  rw [once, once, hfilter]
  generalize fs.filter (fun f => f.1 ∈ names) = gs
  match gs with
  | [] => rfl
  | [_] => rfl
  | _ :: _ :: _ => rfl

/-- So may those of known fields, for what is left over. -/
theorem leftOver_renamed (hother : ∀ k ∉ names, g k = k) :
    leftOver names (fs.map fun f => (g f.1, f.2)) = leftOver names fs := by
  have hfilter : (fs.map fun f => (g f.1, f.2)).filter (fun f => f.1 ∉ names) =
      fs.filter fun f => f.1 ∉ names := by
    rw [List.filter_map]
    have hsame : fs.filter ((fun f => f.1 ∉ names) ∘ fun f => (g f.1, f.2)) =
        fs.filter fun f => f.1 ∉ names :=
      List.filter_congr fun f _ => decide_eq_decide.mpr (not_congr (hg f.1))
    rw [hsame]
    refine (List.map_congr_left fun f hf => ?_).trans (List.map_id _)
    exact Prod.ext (hother f.1 (of_decide_eq_true (List.mem_filter.mp hf).2)) rfl
  rw [leftOver, leftOver, hfilter]

end Renamed

end BomAssembly.Json
