import BomAssembly.Proofs.Fallible
import BomAssembly.Proofs.Yaml.Meaning

/-!
# Values that differ in numbers only

A reader of known fields wants texts, integers, sequences and records, and has no use for a number
with a fraction. Where it finds one it refuses, and where it does not look it does not matter what
stands there. So a value that differs from another in such numbers only (`Agrees`) is read as the
other is, wherever that one is read: a reader of which this is true is `Firm`, and the readers of
records are, as they are put together from firm ones (`firm_record`).
-/

namespace BomAssembly.Yaml

mutual

/-- The second value is the first, except that other values may stand in place of its floating point
numbers. -/
inductive Agrees : Value → Value → Prop where
  | same (v : Value) : Agrees v v
  | float (x : Float) (v : Value) : Agrees (.float x) v
  | seq {vs ws : List Value} : List.Forall₂ Agrees vs ws → Agrees (.seq vs) (.seq ws)
  | map {fs gs : List (String × Value)} : List.Forall₂ FieldAgrees fs gs →
      Agrees (.map (textEntries fs)) (.map (textEntries gs))

/-- Two fields of one name whose values agree. -/
inductive FieldAgrees : String × Value → String × Value → Prop where
  | of (name : String) {v w : Value} : Agrees v w → FieldAgrees (name, v) (name, w)

end

/-- What is read as a text is that text. -/
theorem Agrees.eq_of_str {s : String} {v : Value} (h : Agrees (.str s) v) : v = .str s := by
  cases h
  rfl

theorem FieldAgrees.fst_eq {f g : String × Value} (h : FieldAgrees f g) : f.1 = g.1 := by
  cases h
  rfl

theorem FieldAgrees.snd {f g : String × Value} (h : FieldAgrees f g) : Agrees f.2 g.2 := by
  cases h with
  | of _ h => exact h

section Fields

variable {fs gs : List (String × Value)} (h : List.Forall₂ FieldAgrees fs gs)

include h

theorem map_fst_of_agree : fs.map Prod.fst = gs.map Prod.fst := by
  induction h with
  | nil => rfl
  | cons hfield _ ih => rw [List.map_cons, List.map_cons, hfield.fst_eq, ih]

/-- The fields that agree by name are picked in both. -/
theorem filter_agree (p : String → Bool) :
    List.Forall₂ FieldAgrees (fs.filter fun f => p f.1) (gs.filter fun g => p g.1) := by
  induction h with
  | nil => exact .nil
  | cons hfield _ ih =>
      rw [List.filter_cons, List.filter_cons, hfield.fst_eq]
      split
      · exact .cons hfield ih
      · exact ih

/-- A name means a field in both or in neither. -/
theorem lookup_agree (name : String) : (fs.lookup name = none ∧ gs.lookup name = none) ∨
    ∃ v w, fs.lookup name = some v ∧ gs.lookup name = some w ∧ Agrees v w := by
  induction h with
  | nil => exact .inl ⟨rfl, rfl⟩
  | cons hfield _ ih =>
      obtain ⟨field, hvalues⟩ := hfield
      rw [List.lookup_cons, List.lookup_cons]
      split
      · exact .inr ⟨_, _, rfl, rfl, hvalues⟩
      · exact ih

end Fields

/-! ## Firm readers -/

section Firm

variable {α : Type}

/-- What is read as something is read as the same where it differs in floating point numbers only. -/
structure Firm (read : Value → Option α) : Prop where
  keeps : ∀ {v w : Value} {a : α}, Agrees v w → read v = some a → read w = some a

/-- A reader of scalars that takes no floating point numbers is firm. -/
theorem firm_of_scalar {read : Value → Option α} (hfloat : ∀ x, read (.float x) = none)
    (hseq : ∀ vs, read (.seq vs) = none) (hmap : ∀ es, read (.map es) = none) : Firm read := by
  refine ⟨fun h hread => ?_⟩
  cases h with
  | same => exact hread
  | float x => exact absurd ((hfloat x).symm.trans hread) (by simp)
  | seq => exact absurd ((hseq _).symm.trans hread) (by simp)
  | map => exact absurd ((hmap _).symm.trans hread) (by simp)

theorem firm_string? : Firm Value.string? :=
  firm_of_scalar (fun _ => rfl) (fun _ => rfl) fun _ => rfl

theorem firm_stringOrNull? : Firm Value.stringOrNull? :=
  firm_of_scalar (fun _ => rfl) (fun _ => rfl) fun _ => rfl

theorem firm_list? {read : Value → Option α} (hfirm : Firm read) : Firm (Value.list? read) := by
  refine ⟨fun {v w as} h hread => ?_⟩
  cases h with
  | same => exact hread
  | float => exact absurd hread (by simp [Value.list?])
  | map => exact absurd hread (by simp [Value.list?])
  | seq hitems =>
      rw [Value.list?] at hread ⊢
      induction hitems generalizing as with
      | nil => exact hread
      | cons hitem _ ih =>
          rw [List.mapM_cons] at hread ⊢
          obtain ⟨a, ha, hread⟩ := Option.bind_eq_some_iff.mp hread
          obtain ⟨more, hmore, hread⟩ := Option.bind_eq_some_iff.mp hread
          rw [hfirm.keeps hitem ha, Option.bind_eq_bind, Option.bind_some, ih hmore]
          exact hread

/-! ## Records -/

/-- The fields of a record in a mapping whose keys are texts. -/
theorem record?_textEntries (names : List String) (fs : List (String × Value)) :
    (Value.map (textEntries fs)).record? names =
      if ((fs.filter fun f => f.1 ∈ names).map Prod.fst).Nodup then
        some (fs.filter fun f => f.1 ∈ names) else none := by
  have hfields : (textEntries fs).mapM (fun e =>
      (Value.fieldOf names e.1).map fun f => f.map fun n => (n, e.2)) =
        some (fs.map fun f => if f.1 ∈ names then some f else none) := by
    rw [textEntries, List.mapM_map]
    refine mapM_of_forall fun f _ => ?_
    show (Value.fieldOf names (.str f.1)).map (fun n => n.map fun n => (n, f.2)) = _
    rw [Value.fieldOf]
    split <;> rfl
  have hkept : (fs.map fun f => if f.1 ∈ names then some f else none).filterMap id =
      fs.filter fun f => f.1 ∈ names := by
    rw [List.filterMap_map, ← List.filterMap_eq_filter]
    refine List.filterMap_congr fun f _ => ?_
    simp [Option.guard]
  show Option.bind ((textEntries fs).mapM fun e =>
    (Value.fieldOf names e.1).map fun f => f.map fun n => (n, e.2)) _ = _
  rw [hfields, Option.bind_some]
  dsimp only
  rw [hkept]

/-- **The fields of a record agree.** -/
theorem Agrees.record? {v w : Value} {names : List String} {fs : List (String × Value)}
    (h : Agrees v w) (hread : v.record? names = some fs) :
    ∃ gs, w.record? names = some gs ∧ List.Forall₂ FieldAgrees fs gs := by
  cases h with
  | same => exact ⟨fs, hread, List.forall₂_same.mpr fun f _ => .of f.1 (.same f.2)⟩
  | float => exact absurd hread (by simp [Value.record?])
  | seq hitems =>
      rw [Value.record?] at hread ⊢
      split at hread
      · next hlength =>
        obtain rfl := Option.some.inj hread
        rw [if_pos (by rw [← hitems.length_eq]; exact hlength)]
        refine ⟨_, rfl, ?_⟩
        clear hread hlength
        induction hitems generalizing names with
        | nil => simp
        | cons hitem _ ih =>
            cases names with
            | nil => exact .nil
            | cons name names => exact .cons (.of name hitem) ih
      · exact absurd hread (by simp)
  | map hfields =>
      rw [record?_textEntries] at hread ⊢
      have hkept := filter_agree hfields fun name => decide (name ∈ names)
      split at hread
      · next hnodup =>
        obtain rfl := Option.some.inj hread
        rw [map_fst_of_agree hkept] at hnodup
        rw [if_pos hnodup]
        exact ⟨_, rfl, hkept⟩
      · exact absurd hread (by simp)

/-- **A record is read firmly** if what is made of its fields is the same when they agree. -/
theorem firm_record {names : List String} {body : List (String × Value) → Option α}
    (read : Value → Option α) (hrecord : ∀ v, read v = (v.record? names).bind body)
    (hbody : ∀ {fs gs : List (String × Value)} {a : α}, List.Forall₂ FieldAgrees fs gs →
      body fs = some a → body gs = some a) : Firm read := by
  refine ⟨fun h hread => ?_⟩
  rw [hrecord] at hread ⊢
  obtain ⟨fs, hfs, hread⟩ := Option.bind_eq_some_iff.mp hread
  obtain ⟨gs, hgs, hfields⟩ := h.record? hfs
  exact Option.bind_eq_some_iff.mpr ⟨gs, hgs, hbody hfields hread⟩

section Reading

variable {fs gs : List (String × Value)} (h : List.Forall₂ FieldAgrees fs gs)
  {read : Value → Option α} (hfirm : Firm read) {name : String} {a : α}

include h hfirm

theorem required_agree (hread : required read name fs = some a) :
    required read name gs = some a := by
  obtain ⟨v, hv, hread⟩ := Option.bind_eq_some_iff.mp hread
  rcases lookup_agree h name with ⟨hnone, -⟩ | ⟨v', w, hv', hw, hagrees⟩
  · exact absurd (hnone.symm.trans hv) (by simp)
  · obtain rfl := Option.some.inj (hv'.symm.trans hv)
    rw [required, hw, Option.bind_some]
    exact hfirm.keeps hagrees hread

theorem defaulted_agree {value : α} (hread : defaulted value read name fs = some a) :
    defaulted value read name gs = some a := by
  rw [defaulted] at hread ⊢
  rcases lookup_agree h name with ⟨hfs, hgs⟩ | ⟨v, w, hv, hw, hagrees⟩
  · rw [hfs] at hread
    rw [hgs]
    exact hread
  · rw [hv] at hread
    rw [hw]
    exact hfirm.keeps hagrees hread

end Reading

end Firm

end BomAssembly.Yaml
