import BomAssembly.Proofs.Control.Course
import BomAssembly.Proofs.Control.Submission

/-!
# The turns of a tick

A tick gives each live request its turn, in the order of arrival. Since names in a store are
distinct, a turn writes to one record only, and no other turn of the tick touches that record: when
its turn comes the record is still what it was, and after its turn it stays as it is
(`HasTurn.get?_turn`, `HasTurn.get?_tick`). The platform only gains job runs from turn to turn, and
every job run that a tick takes is taken in some turn (`exists_turn_of_took`).
-/

namespace BomAssembly

open Platform (Took)
open Time (Instant)

/-! ## One turn -/

namespace World

variable {settings : RunSettings} {now : Instant} {r : Request} {v w : World Store Platform}
  {rs : List Request} {name : String}

/-- A turn leaves the records of other names alone. -/
theorem get?_passOver_of_ne (h : name ≠ r.name) :
    (passOver settings now r w).1.store.get? name = w.store.get? name := by
  rw [passOver_fst]
  dsimp only
  split
  · next record hwritten =>
    refine Store.get?_update_of_ne ?_
    rw [name_of_written hwritten]
    exact h
  · rfl

theorem took_passOver (settings : RunSettings) (now : Instant) (r : Request)
    (w : World Store Platform) :
    ∃ specs, Took w.platform specs (passOver settings now r w).1.platform := by
  obtain ⟨specs, htook, -⟩ := Pass.run_took settings now r w.platform
  rw [passOver_fst]
  exact ⟨specs, htook⟩

/-- Nothing is taken in a turn but what the request calls for. -/
theorem callsFor_of_turn {taken : List JobRunSpec} {spec : JobRunSpec}
    (htook : Took v.platform taken (passOver settings now r v).1.platform) (hspec : spec ∈ taken) :
    Pass.CallsFor settings r spec := by
  rw [passOver_fst] at htook
  exact Pass.callsFor_of_took htook hspec

/-- The record of the request is what its pass has written, or stays. -/
theorem get?_passOver_self (hr : r.name ∈ w.store.names) :
    (passOver settings now r w).1.store.get? r.name =
      (Pass.written (Pass.run settings now r w.platform).2).or (w.store.get? r.name) := by
  rw [passOver_fst]
  dsimp only
  cases hwritten : Pass.written (Pass.run settings now r w.platform).2 with
  | none => rfl
  | some written =>
      have hsame : written.name = r.name := name_of_written hwritten
      rw [← hsame] at hr ⊢
      exact Store.get?_update_self hr

/-- **The record after a turn** is what it was, or it is read as what the request has come to. -/
theorem record_of_turn {record new : Record} (hget : v.store.get? r.name = some record)
    (hread : Request.ofRecord record = .ok r) (hback : record.ReadsBack)
    (hnew : (passOver settings now r v).1.store.get? r.name = some new) :
    (Pass.written (Pass.run settings now r v.platform).2 = none ∧ new = record) ∨
    ∃ after report, (Pass.run settings now r v.platform).2 = .ok (after, report) ∧
      report.statusChanged = true ∧ new.name = record.name ∧ Request.ofRecord new = .ok after := by
  have hname : record.name = r.name := (Store.get?_eq_some_iff.mp hget).2
  rw [get?_passOver_self (hname ▸ Store.name_mem_of_get? hget), hget] at hnew
  cases hwritten : Pass.written (Pass.run settings now r v.platform).2 with
  | none =>
      rw [hwritten] at hnew
      exact .inl ⟨rfl, (Option.some.inj hnew).symm⟩
  | some written =>
      rw [hwritten] at hnew
      obtain rfl := Option.some.inj hnew
      have hsame := name_of_written hwritten
      obtain ⟨after, report, hresult, hchanged, rfl⟩ := Pass.written_eq_some hwritten
      have hcourse := Pass.run_course settings now r v.platform
      rw [hresult] at hcourse
      have hstorable := (Request.storable_of_ofRecord hread hback).of_same hcourse.same.1
      exact .inr ⟨after, report, hresult, hchanged, hsame.trans hname.symm,
        hstorable.ofRecord_toRecord⟩

/-! ## A sequence of turns -/

theorem passOverAll_cons (r : Request) (rs : List Request) :
    (passOverAll settings now (r :: rs) w).1 =
      (passOverAll settings now rs (passOver settings now r w).1).1 := rfl

theorem passOverAll_append (before later : List Request) :
    (passOverAll settings now (before ++ later) w).1 =
      (passOverAll settings now later (passOverAll settings now before w).1).1 := by
  induction before generalizing w with
  | nil => rfl
  | cons r before ih => rw [List.cons_append, passOverAll_cons, passOverAll_cons, ih]

theorem names_passOverAll (settings : RunSettings) (now : Instant) (rs : List Request)
    (w : World Store Platform) :
    (passOverAll settings now rs w).1.store.names = w.store.names := by
  induction rs generalizing w with
  | nil => rfl
  | cons r rs ih => rw [passOverAll_cons, ih, names_passOver]

theorem get?_passOverAll_of_ne (h : ∀ r ∈ rs, name ≠ r.name) :
    (passOverAll settings now rs w).1.store.get? name = w.store.get? name := by
  induction rs generalizing w with
  | nil => rfl
  | cons r rs ih =>
      rw [passOverAll_cons, ih fun r' hr' => h r' (List.mem_cons_of_mem _ hr'),
        get?_passOver_of_ne (h r List.mem_cons_self)]

theorem took_passOverAll (settings : RunSettings) (now : Instant) (rs : List Request)
    (w : World Store Platform) :
    ∃ specs, Took w.platform specs (passOverAll settings now rs w).1.platform := by
  induction rs generalizing w with
  | nil => exact ⟨[], .none _⟩
  | cons r rs ih =>
      obtain ⟨specs, htook⟩ := took_passOver settings now r w
      obtain ⟨more, htook'⟩ := @ih (passOver settings now r w).1
      exact ⟨specs ++ more, htook.trans htook'⟩

/-! ## Whose turn it is -/

theorem tick_fst (settings : RunSettings) (now : Instant) (w : World Store Platform) :
    (tick settings now w).1 = (passOverAll settings now (live w.store.records) w).1 := rfl

theorem mem_live_iff {records : List Record} : r ∈ live records ↔
    ∃ record ∈ records, Request.ofRecord record = .ok r ∧ r.isFinished = false := by
  rw [live, List.mem_filterMap]
  refine exists_congr fun record => and_congr_right fun _ => ?_
  cases Request.ofRecord record with
  | error e => simp
  | ok r' =>
      cases hfinished : r'.isFinished with
      | true => simp only [hfinished]; grind
      | false => simp only [hfinished]; grind

theorem live_cons_of_storable (h : r.Storable) (hlive : r.isFinished = false)
    (records : List Record) : live (r.toRecord :: records) = r :: live records := by
  rw [live, List.filterMap_cons, h.ofRecord_toRecord]
  simp only [hlive, Bool.false_eq_true, if_false]
  rfl

/-- **No name has two turns.** -/
theorem nodup_live (s : Store) : ((live s.records).map Request.name).Nodup := by
  refine List.pairwise_map.mpr (List.pairwise_filterMap.mpr
    ((List.pairwise_map.mp s.names_nodup).imp ?_))
  intro a b hne r hr r' hr'
  have hname : ∀ {record : Record} {r : Request}, r ∈ live [record] → r.name = record.name := by
    intro record r hmem
    obtain ⟨_, hrecord, hread, -⟩ := mem_live_iff.mp hmem
    rw [Request.name_of_ofRecord hread, List.mem_singleton.mp hrecord]
  rw [hname (List.mem_filterMap.mpr ⟨a, List.mem_singleton_self a, hr⟩),
    hname (List.mem_filterMap.mpr ⟨b, List.mem_singleton_self b, hr'⟩)]
  exact hne

/-- In a tick of `w` the turn of a request comes at `v`. -/
def HasTurn (settings : RunSettings) (now : Instant) (w : World Store Platform) (r : Request)
    (v : World Store Platform) : Prop :=
  ∃ before later, live w.store.records = before ++ r :: later ∧
    v = (passOverAll settings now before w).1

theorem exists_turn (h : r ∈ live w.store.records) : ∃ v, HasTurn settings now w r v := by
  obtain ⟨before, later, heq⟩ := List.append_of_mem h
  exact ⟨_, before, later, heq, rfl⟩

namespace HasTurn

variable (h : HasTurn settings now w r v)

include h

theorem mem_live : r ∈ live w.store.records := by
  obtain ⟨before, later, heq, -⟩ := h
  rw [heq]
  simp

/-- When the turn comes, the record is what it was. -/
theorem get?_turn : v.store.get? r.name = w.store.get? r.name := by
  obtain ⟨before, later, heq, rfl⟩ := h
  have hnodup := nodup_live w.store
  rw [heq, List.map_append, List.nodup_append] at hnodup
  refine get?_passOverAll_of_ne fun r' hr' hname => ?_
  exact hnodup.2.2 r'.name (List.mem_map_of_mem hr') r.name (by simp) hname.symm

/-- After the turn, the record stays as it is. -/
theorem get?_tick : (tick settings now w).1.store.get? r.name =
    (passOver settings now r v).1.store.get? r.name := by
  obtain ⟨before, later, heq, rfl⟩ := h
  have hnodup := nodup_live w.store
  rw [heq, List.map_append, List.nodup_append, List.map_cons, List.nodup_cons] at hnodup
  rw [tick_fst, heq, passOverAll_append, passOverAll_cons]
  refine get?_passOverAll_of_ne fun r' hr' hname => ?_
  exact hnodup.2.1.1 (List.mem_map.mpr ⟨r', hr', hname.symm⟩)

/-- The request is read from the record that is there when its turn comes. -/
theorem stored : ∃ record, w.store.get? r.name = some record ∧ v.store.get? r.name = some record ∧
    Request.ofRecord record = .ok r ∧ r.isFinished = false := by
  obtain ⟨record, hmem, hread, hlive⟩ := mem_live_iff.mp h.mem_live
  have hget : w.store.get? r.name = some record :=
    Store.get?_eq_some_iff.mpr ⟨hmem, (Request.name_of_ofRecord hread).symm⟩
  exact ⟨record, hget, h.get?_turn.trans hget, hread, hlive⟩

theorem took_before : ∃ specs, Took w.platform specs v.platform := by
  obtain ⟨before, later, -, rfl⟩ := h
  exact took_passOverAll settings now before w

theorem took_after : ∃ specs,
    Took (passOver settings now r v).1.platform specs (tick settings now w).1.platform := by
  obtain ⟨before, later, heq, rfl⟩ := h
  rw [tick_fst, heq, passOverAll_append, passOverAll_cons]
  exact took_passOverAll settings now later _

end HasTurn

/-- A name without a live request keeps its record. -/
theorem get?_tick_of_ne (h : ∀ r ∈ live w.store.records, name ≠ r.name) :
    (tick settings now w).1.store.get? name = w.store.get? name := by
  rw [tick_fst]
  exact get?_passOverAll_of_ne h

/-- **What a sequence of turns takes, one of them takes.** -/
theorem exists_taking {specs : List JobRunSpec} {spec : JobRunSpec}
    (h : Took w.platform specs (passOverAll settings now rs w).1.platform) (hspec : spec ∈ specs) :
    ∃ before r later taken, rs = before ++ r :: later ∧
      Took (passOverAll settings now before w).1.platform taken
        (passOver settings now r (passOverAll settings now before w).1).1.platform ∧
      spec ∈ taken := by
  induction rs generalizing w specs with
  | nil => exact absurd (h.specs_eq (.none _) ▸ hspec) List.not_mem_nil
  | cons r rs ih =>
      obtain ⟨first, hfirst⟩ := took_passOver settings now r w
      obtain ⟨rest, hrest⟩ := took_passOverAll settings now rs (passOver settings now r w).1
      rw [passOverAll_cons] at h
      rw [h.specs_eq (hfirst.trans hrest)] at hspec
      rcases List.mem_append.mp hspec with hspec | hspec
      · exact ⟨[], r, rs, first, rfl, hfirst, hspec⟩
      · obtain ⟨before, r', later, taken, rfl, htook, hmem⟩ := ih hrest hspec
        exact ⟨r :: before, r', later, taken, rfl, htook, hmem⟩

theorem exists_turn_of_took {specs : List JobRunSpec} {spec : JobRunSpec}
    (h : Took w.platform specs (tick settings now w).1.platform) (hspec : spec ∈ specs) :
    ∃ r v taken, HasTurn settings now w r v ∧
      Took v.platform taken (passOver settings now r v).1.platform ∧ spec ∈ taken := by
  obtain ⟨before, r, later, taken, heq, htook, hmem⟩ := exists_taking h hspec
  exact ⟨r, _, taken, ⟨before, later, heq, rfl⟩, htook, hmem⟩

end World

end BomAssembly
