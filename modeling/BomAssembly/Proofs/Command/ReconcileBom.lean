import BomAssembly.Command.ReconcileBom
import BomAssembly.Proofs.Command.Trouble
import BomAssembly.Proofs.Host.Tree

/-!
# What protects a generated BOM from being written over

A pass over files is refused, and nothing is read or written, exactly when the path for the result has
the same components as the path of the generated BOM (`outcome_files_eq_overwriting_iff`). Two paths for
one file have the same components when both begin with a dot or neither does; where only one of them
does, a pass that ends well puts the reconciled BOM in the place of the generated one (`guarded_iff`).
-/

namespace BomAssembly.Reconcile

open CommandM (outcome outcome_bind_eq_ok outcome_bind fileOperation_eq_ok ofExcept_eq_ok pair_eq_iff)
open FilePath (SameFile StartsHere)

/-- The refusal to write over a generated BOM. -/
def overwriting (bom : String) : Trouble :=
  .failed (.validation s!"reconciled BOM must not overwrite the raw BOM '{bom}'")

/-- A pass over files whose paths are apart. -/
def apart {m : Type → Type} [Monad m] [MonadHost m] (manifestPath bomPath output : String) :
    CommandM m Report := do
  let manifestText ← readFile manifestPath
  let manifest ← CommandM.ofExcept documentFailure (Manifest.parse manifestText)
  let bomText ← readFile bomPath
  let bom ← CommandM.ofExcept documentFailure (boundedBom bomText)
  let (out, report) := reconcile manifest bom
  writeBom output out
  return report

variable {manifest bom output : String} {s s' : Session}

/-! ## The refusal -/

/-- **Paths with the same components are refused**, on every host, before anything is done. -/
theorem files_of_same {m : Type → Type} [Monad m] [LawfulMonad m] [MonadHost m]
    (h : FilePath.Same output bom) :
    files (m := m) manifest bom output = throw (overwriting bom) := by
  rw [files, if_pos h]
  exact ExceptT.ext (by simp [overwriting])

theorem files_of_not_same {m : Type → Type} [Monad m] [MonadHost m]
    (h : ¬ FilePath.Same output bom) :
    files (m := m) manifest bom output = apart manifest bom output := by
  rw [files, if_neg h, apart]

/-- A computation that never ends with the refusal of a BOM. -/
def Unrefused {α : Type} (x : CommandM (StateM Session) α) : Prop :=
  ∀ s bom, (outcome x s).1 ≠ .error (overwriting bom)

section Unrefused

variable {α β : Type} {x : CommandM (StateM Session) α} {f : α → CommandM (StateM Session) β}

theorem Unrefused.bind (hx : Unrefused x) (hf : ∀ a, Unrefused (f a)) : Unrefused (x >>= f) := by
  intro s bom
  have hhere := hx s bom
  rw [outcome_bind]
  rcases h : outcome x s with ⟨e | a, t⟩
  · rw [h] at hhere
    exact fun heq => hhere (congrArg _ (Except.error.inj heq))
  · exact hf a t bom

theorem unrefused_pure (a : α) : Unrefused (pure a) := by
  intro s bom
  simp

theorem documentFailure_ne_overwriting (e : DocumentError) :
    documentFailure e ≠ overwriting bom := by
  cases e <;> simp [documentFailure, overwriting, DocumentError.toFailure, Failure.unnamedFile,
    Failure.missingField]

theorem fileFailure_ne_overwriting (e : FileError) : fileFailure e ≠ overwriting bom :=
  documentFailure_ne_overwriting _

theorem mapError_ne_overwriting {ε : Type} {trouble : ε → Trouble}
    (h : ∀ e, trouble e ≠ overwriting bom) (r : Except ε α) :
    r.mapError trouble ≠ .error (overwriting bom) := by
  cases r with
  | ok a => simp [Except.mapError]
  | error e => simpa [Except.mapError] using h e

theorem unrefused_ofExcept (r : Except DocumentError α) :
    Unrefused (CommandM.ofExcept documentFailure r) := by
  intro s bom
  rw [CommandM.outcome_ofExcept]
  exact mapError_ne_overwriting documentFailure_ne_overwriting r

theorem unrefused_file (action : StateM Session (Except FileError α)) :
    Unrefused (ExceptT.mk do return (← action).mapError fileFailure) := fun s _ =>
  mapError_ne_overwriting fileFailure_ne_overwriting (action s).1

end Unrefused

theorem unrefused_writeBom (path : String) (b : Bom) : Unrefused (writeBom path b) := by
  unfold writeBom
  split
  · exact (unrefused_file _).bind fun _ => unrefused_file _
  · exact unrefused_file _

theorem unrefused_apart : Unrefused (apart manifest bom output) :=
  (unrefused_file _).bind fun _ => (unrefused_ofExcept _).bind fun _ =>
    (unrefused_file _).bind fun _ => (unrefused_ofExcept _).bind fun _ =>
      (unrefused_writeBom _ _).bind fun _ => unrefused_pure _

/-- **A pass is refused exactly when the two paths have the same components.** -/
theorem outcome_files_eq_overwriting_iff :
    (outcome (files manifest bom output) s).1 = .error (overwriting bom) ↔
      FilePath.Same output bom := by
  constructor
  · intro h
    by_contra hsame
    rw [files_of_not_same hsame] at h
    exact unrefused_apart s bom h
  · intro hsame
    rw [files_of_same hsame]
    rfl

/-! ## What is written -/

theorem readFile_eq_ok {path text : String} :
    outcome (readFile path) s = (.ok text, s') ↔ s.tree.read path = .ok text ∧ s' = s := by
  rw [readFile, fileOperation_eq_ok]
  exact pair_eq_iff.symm.trans (and_congr_right' eq_comm)

/-- The last step of writing a BOM is to put it in its file. -/
theorem writeBom_eq_ok {path : String} {b : Bom} (h : outcome (writeBom path b) s = (.ok (), s')) :
    ∃ t : FileTree, t.write path b.render = .ok s'.tree := by
  have hwrite : ∀ t, outcome (ExceptT.mk (m := StateM Session) do
      return (← MonadFiles.write path b.render).mapError fileFailure) t = (.ok (), s') →
      t.tree.write path b.render = .ok s'.tree := by
    intro t ht
    obtain ⟨tree, htree, rfl⟩ := Session.attempt_eq_ok_iff.mp (fileOperation_eq_ok.mp ht)
    exact htree
  unfold writeBom at h
  split at h
  · obtain ⟨_, t, _, hlast⟩ := outcome_bind_eq_ok.mp h
    exact ⟨t.tree, hwrite t hlast⟩
  · exact ⟨s.tree, hwrite s h⟩

/-- **A pass that ends well**, step by step. -/
theorem outcome_apart_eq_ok {report : Report}
    (h : outcome (apart manifest bom output) s = (.ok report, s')) :
    ∃ manifestText m bomText b, s.tree.read manifest = .ok manifestText ∧
      Manifest.parse manifestText = .ok m ∧ s.tree.read bom = .ok bomText ∧
      boundedBom bomText = .ok b ∧ report = (reconcile m b).2 ∧
      ∃ t : FileTree, t.write output (reconcile m b).1.render = .ok s'.tree := by
  obtain ⟨manifestText, s₁, hfirst, hrest₁⟩ := outcome_bind_eq_ok.mp h
  obtain ⟨hmanifestText, rfl⟩ := readFile_eq_ok.mp hfirst
  obtain ⟨m, s₂, hmanifest, hrest₂⟩ := outcome_bind_eq_ok.mp hrest₁
  obtain ⟨hm, rfl⟩ := ofExcept_eq_ok.mp hmanifest
  obtain ⟨bomText, s₃, hsecond, hrest₃⟩ := outcome_bind_eq_ok.mp hrest₂
  obtain ⟨hbomText, rfl⟩ := readFile_eq_ok.mp hsecond
  obtain ⟨b, s₄, hbom, hrest₄⟩ := outcome_bind_eq_ok.mp hrest₃
  obtain ⟨hb, rfl⟩ := ofExcept_eq_ok.mp hbom
  obtain ⟨_, s₅, hwrite, hlast⟩ := outcome_bind_eq_ok.mp hrest₄
  obtain ⟨hreport, rfl⟩ := Prod.mk.inj hlast
  exact ⟨manifestText, m, bomText, b, hmanifestText, hm, hbomText, hb,
    (Except.ok.inj hreport).symm, writeBom_eq_ok hwrite⟩

/-- The generated BOM was read, and the reconciled one is in its place. -/
def Overwritten (manifest bom : String) (s s' : Session) (report : Report) : Prop :=
  ∃ manifestText m bomText b, s.tree.read manifest = .ok manifestText ∧
    Manifest.parse manifestText = .ok m ∧ s.tree.read bom = .ok bomText ∧
    boundedBom bomText = .ok b ∧ report = (reconcile m b).2 ∧
    s'.tree.read bom = .ok (reconcile m b).1.render

/-- **A pass that is not refused although its paths name one file** writes over the generated BOM. -/
theorem overwritten_of_sameFile (hsame : SameFile output bom) {report : Report}
    (h : outcome (files manifest bom output) s = (.ok report, s')) :
    Overwritten manifest bom s s' report := by
  have hapart : ¬ FilePath.Same output bom := by
    intro heq
    rw [files_of_same heq] at h
    exact absurd h (by simp)
  rw [files_of_not_same hapart] at h
  obtain ⟨manifestText, m, bomText, b, hmanifestText, hm, hbomText, hb, hreport, t, hwrite⟩ :=
    outcome_apart_eq_ok h
  refine ⟨manifestText, m, bomText, b, hmanifestText, hm, hbomText, hb, hreport, ?_⟩
  obtain ⟨_, hplace, _, hmeans⟩ := FileTree.read_eq_ok_iff.mp hbomText
  obtain ⟨_, hout, _⟩ := FileTree.write_eq_ok_iff.mp hwrite
  exact FileTree.read_write hwrite (FileTree.locate_eq_of_sameFile hsame
    (FileTree.ne_empty_of_locate hout) (FileTree.ne_empty_of_locate hplace)).symm hmeans

/-- **What the refusal protects.** Of two paths for one file, the first is refused for the result of a
pass, and nothing is done, exactly when both begin with a dot or neither does. Else no pass is refused,
and one that ends well has written over the generated BOM. -/
theorem guarded_iff (hsame : SameFile output bom) (s : Session) :
    (outcome (files manifest bom output) s = (.error (overwriting bom), s) ↔
      (StartsHere output.toList ↔ StartsHere bom.toList)) ∧
    (¬ (StartsHere output.toList ↔ StartsHere bom.toList) →
      (outcome (files manifest bom output) s).1 ≠ .error (overwriting bom) ∧
      ∀ report s', outcome (files manifest bom output) s = (.ok report, s') →
        Overwritten manifest bom s s' report) := by
  have hsteps : FilePath.Same output bom ↔ (StartsHere output.toList ↔ StartsHere bom.toList) :=
    FilePath.same_iff.trans (and_iff_right hsame)
  rw [← hsteps]
  refine ⟨⟨fun h => ?_, fun h => ?_⟩, fun hapart => ⟨?_, fun report s' h => ?_⟩⟩
  · exact outcome_files_eq_overwriting_iff.mp (congrArg Prod.fst h)
  · rw [files_of_same h]
    rfl
  · exact mt outcome_files_eq_overwriting_iff.mp hapart
  · exact overwritten_of_sameFile hsame h

theorem guarded_iff_repeated :
    SameFile "out//./bom.json/" "out/bom.json" ∧
    (outcome (files "m.json" "out/bom.json" "out//./bom.json/") default
        = (.error (overwriting "out/bom.json"), default) ↔
      (StartsHere "out//./bom.json/".toList ↔ StartsHere "out/bom.json".toList)) ∧
    (¬ (StartsHere "out//./bom.json/".toList ↔ StartsHere "out/bom.json".toList) →
      (outcome (files "m.json" "out/bom.json" "out//./bom.json/") default).1
        ≠ .error (overwriting "out/bom.json") ∧
      ∀ report s', outcome (files "m.json" "out/bom.json" "out//./bom.json/") default
          = (.ok report, s') →
        Overwritten "m.json" "out/bom.json" default s' report) := by
  have hsame : SameFile "out//./bom.json/" "out/bom.json" := ⟨by decide, by decide⟩
  exact ⟨hsame, guarded_iff hsame default⟩

/-- A directory with a manifest and a generated BOM. -/
def beside : Session where
  tree := .ofFiles ["work"]
    [("m.json", "[\"pkg:maven/g/a@1\"]"), ("bom.json", "\x7b\"bomFormat\":\"CycloneDX\"\x7d")]

/-- A dot in front of the path is enough for the generated BOM to be lost. -/
theorem not_guarded_dot :
    SameFile "./bom.json" "bom.json" ∧
    (outcome (files "m.json" "bom.json" "./bom.json") beside).1
      ≠ .error (overwriting "bom.json") ∧
    (outcome (files "m.json" "bom.json" "./bom.json") beside).2.tree.read "bom.json"
      ≠ beside.tree.read "bom.json" := by
  have hread : ∀ r r' : Except FileError String, r.toOption ≠ r'.toOption → r ≠ r' :=
    fun _ _ hne heq => hne (congrArg _ heq)
  refine ⟨⟨by decide, by decide⟩, ?_, hread _ _ (by decide +kernel)⟩
  exact mt outcome_files_eq_overwriting_iff.mp (by decide)

end BomAssembly.Reconcile
