import BomAssembly.Command.Generate
import BomAssembly.Host.Tree
import BomAssembly.Proofs.CommandLine.Arguments
import BomAssembly.Proofs.JobRun.Desired
import BomAssembly.Proofs.Request.OperationDocument

/-!
# A job run generates what it was made for

The specs of job runs are made from a request, and the command of a job run knows of the request what
its parameters say: a document, and a word for a position. The document is read as the configuration
that it was made from and the word as the position that it was made for, so that the command comes to
the deliverable at that position.

The positions are the ones in the list of deliverables. What indices the deliverables were declared
with, and whether they differ, makes no difference.
-/

namespace BomAssembly.Command.Generate

/-! ## Which deliverables are selected -/

section Selected

variable (o : OperationConfig)

/-- The positions of the deliverables, each with its deliverable, in order. -/
def positions : List (Nat × Deliverable) := o.deliverables.zipIdx.map fun (d, i) => (i, d)

theorem positions_fst : (positions o).map Prod.fst = List.range o.deliverables.length := by
  rw [positions, List.map_map, List.range_eq_range']
  exact List.zipIdx_map_snd 0 o.deliverables

theorem positions_snd : (positions o).map Prod.snd = o.deliverables := by
  rw [positions, List.map_map]
  exact List.zipIdx_map_fst 0 o.deliverables

variable {o}

theorem selected?_natCast {i : Nat} {d : Deliverable} (h : o.deliverables[i]? = some d) :
    selected? o (some (i : Int)) = some [(i, d)] := by
  rw [selected?, if_neg (by omega), Int.toNat_natCast, h]
  rfl

/-- Nothing is selected by a position that there is not. -/
theorem selected?_eq_none_iff {index : Int} :
    selected? o (some index) = none ↔ index < 0 ∨ (o.deliverables.length : Int) ≤ index := by
  rw [selected?]
  by_cases hneg : index < 0
  · rw [if_pos hneg]
    exact iff_of_true rfl (.inl hneg)
  · rw [if_neg hneg, Option.map_eq_none_iff, List.getElem?_eq_none_iff]
    constructor
    · intro hlen
      exact .inr (by omega)
    · rintro (h | h)
      · exact absurd h hneg
      · omega

end Selected

/-! ## What the command does with them -/

/-- The command from where it knows which deliverables it is for. -/
def carryOut (c : Generate) (o : OperationConfig) (ds : List (Nat × Deliverable)) :
    StateM Session Outcome := do
  match ← (all c o ds).run with
  | .error _ => return .generation
  | .ok () => return .success

theorem isFile_of_read {t : FileTree} {path text : String} (h : t.read path = .ok text) :
    t.isFile path = true := by
  rw [FileTree.read] at h
  rw [FileTree.isFile]
  split at h
  · next heq => rw [heq]
  · exact absurd h (by simp)
  · exact absurd h (by simp)

/-- What is done with a file that is read. -/
theorem bind_read {α : Type} (path : String)
    (f : Except FileError String → ExceptT Outcome (StateM Session) α) (s : Session) :
    (ExceptT.lift (MonadFiles.read path) >>= f : ExceptT Outcome (StateM Session) α) s =
      f (s.tree.read path) s := rfl

section Run

variable {c : Generate} {s : Session} {text : String} {o : OperationConfig}
  (hread : s.tree.read c.config = .ok text) (hparse : OperationConfig.parse? text = some o)

include hread hparse

theorem readConfig_of_read :
    (readConfig c.config : ExceptT Outcome (StateM Session) OperationConfig).run s = (.ok o, s) := by
  show (ite (s.tree.isFile c.config = true) _ _ : ExceptT Outcome (StateM Session) _) s = _
  rw [if_pos (isFile_of_read hread), bind_read, hread]
  dsimp only
  rw [hparse]
  rfl

/-- What is selected is carried out; if nothing is, nothing is done. -/
theorem run_of_read : (run c : StateM Session Outcome) s =
    match selected? o c.index with
    | none => (.indexInvalid, s)
    | some ds => carryOut c o ds s := by
  have hconfig := readConfig_of_read hread hparse
  rw [run]
  simp only [bind, StateT.bind, hconfig]
  cases selected? o c.index <;> rfl

end Run

/-! ## From a spec to a deliverable -/

open CommandLine (IsPathWord)

/-- What a command makes of the parameters of a spec. The words of a line that names a file and has
the word for the position ask for that position; and when the file holds the document, the command is
carried out for the deliverable at that position and for no other. -/
structure Directs (o : OperationConfig) (i : Nat) (spec : JobRunSpec) : Prop where
  document : spec.param? "operation-config" = some (Config.operation o).render
  line : ∃ word, spec.param? "deliverable-index" = some word ∧ ∀ path, IsPathWord path →
    CommandLine.read ["generate", "--operation-config", path, "--index", word] =
      .ok (.generate path (some i) "workdir" "." false, ⟨false, none⟩)
  run : ∃ d, o.deliverables[i]? = some d ∧ ∀ (c : Generate) (s : Session) (text : String),
    spec.param? "operation-config" = some text → s.tree.read c.config = .ok text →
    c.index = some (i : Int) → selected? o c.index = some [(i, d)] ∧
      (c.run : StateM Session Outcome) s = carryOut c o [(i, d)] s

/-- What a command does with the document of an operation when the line names no position, or one that
there is not. -/
structure Covers (o : OperationConfig) (text : String) : Prop where
  line : ∀ path, IsPathWord path → CommandLine.read ["generate", "--operation-config", path] =
    .ok (.generate path none "workdir" "." false, ⟨false, none⟩)
  every : ∀ (c : Generate) (s : Session), s.tree.read c.config = .ok text → c.index = none →
    ∃ ds, selected? o c.index = some ds ∧ ds.map Prod.fst = List.range o.deliverables.length ∧
      ds.map Prod.snd = o.deliverables ∧
      (c.run : StateM Session Outcome) s = carryOut c o ds s
  outside : ∀ (c : Generate) (s : Session) (index : Int), s.tree.read c.config = .ok text →
    c.index = some index → index < 0 ∨ (o.deliverables.length : Int) ≤ index →
    (c.run : StateM Session Outcome) s = (.indexInvalid, s)

section Specs

variable {o : OperationConfig} (ho : (Config.operation o).InRange)

include ho

theorem covers_render : Covers o (Config.operation o).render where
  line _ hpath := CommandLine.read_generate hpath
  every c s hread hindex := by
    have hselected : selected? o c.index = some (positions o) := by rw [hindex]; rfl
    refine ⟨positions o, hselected, positions_fst o, positions_snd o, ?_⟩
    rw [run_of_read hread (OperationConfig.parse?_render ho), hselected]
  outside c s index hread hindex hout := by
    have hselected := selected?_eq_none_iff.mpr hout
    rw [run_of_read hread (OperationConfig.parse?_render ho), hindex, hselected]

theorem directs_specAt (r : Request) (settings : RunSettings) (timeout : Nat) {i : Nat}
    (hi : i < o.deliverables.length) (hfit : o.deliverables.length < Nat.pow 2 32) :
    Directs o i (JobRun.specAt .operation (.operation o) r settings timeout i) := by
  have hdocument : (JobRun.specAt .operation (.operation o) r settings timeout i).param?
      "operation-config" = some (Config.operation o).render := rfl
  refine ⟨hdocument, ⟨toString i, rfl, fun path hpath => ?_⟩, o.deliverables[i],
    List.getElem?_eq_getElem hi, fun c s text htext hread hindex => ?_⟩
  · have hbound : Nat.pow 2 32 ≤ Nat.pow 2 63 := by decide
    have hlow : -(Nat.pow 2 63 : Int) ≤ (i : Int) := by omega
    have hhigh : (i : Int) ≤ (Nat.pow 2 63 : Int) - 1 := by omega
    have hword : toString i = toString (i : Int) := rfl
    rw [hword, CommandLine.read_generate_index hpath hlow hhigh]
  · obtain rfl := Option.some.inj (hdocument.symm.trans htext)
    have hselected := selected?_natCast (List.getElem?_eq_getElem hi)
    rw [← hindex] at hselected
    rw [run_of_read hread (OperationConfig.parse?_render ho), hselected]
    exact ⟨rfl, rfl⟩

end Specs

section Request

variable {r : Request} {o : OperationConfig} {settings : RunSettings}
  (hconfig : r.config? = some (.operation o))

include hconfig

/-- There are specs when the positions can be counted and a time limit can be read. -/
theorem exists_allDesired_iff : (∃ specs, JobRun.allDesired .operation r settings = .ok specs) ↔
    o.deliverables.length < Nat.pow 2 32 ∧
      (o.deliverables = [] ∨ ∃ timeout, Duration.parse settings.timeout = .ok timeout) := by
  have hcount : JobRun.count .operation (.operation o) = .ok o.deliverables.length := rfl
  constructor
  · rintro ⟨specs, hspecs⟩
    have hfit : o.deliverables.length < Nat.pow 2 32 := by
      by_contra hmany
      rw [JobRun.allDesired_of_many hconfig hcount (Nat.not_lt.mp hmany)] at hspecs
      exact absurd hspecs (by simp)
    refine ⟨hfit, ?_⟩
    cases htime : Duration.parse settings.timeout with
    | ok timeout => exact .inr ⟨timeout, rfl⟩
    | error e =>
        left
        by_contra hsome
        rw [JobRun.allDesired_of_error hconfig hcount hfit (List.length_pos_iff.mpr hsome) htime]
          at hspecs
        exact absurd hspecs (by simp)
  · rintro ⟨hfit, hnone | ⟨timeout, htime⟩⟩
    · rw [JobRun.allDesired_of_config hconfig hcount, if_neg (Nat.not_le.mpr hfit), hnone]
      exact ⟨[], rfl⟩
    · exact ⟨_, JobRun.allDesired_eq hconfig hcount hfit htime⟩

end Request

/-- **Each job run of an operation generates the deliverable it was made for.** There are specs when
the positions can be counted and a time limit can be read; then there is one for each position. -/
theorem desired_directs {r : Request} {o : OperationConfig} (hkind : r.kind = .operation)
    (hconfig : r.config? = some (.operation o)) (hindices : (Config.operation o).InRange)
    (settings : RunSettings) :
    ((∃ specs, JobRun.allDesired r.kind r settings = .ok specs) ↔
      o.deliverables.length < Nat.pow 2 32 ∧
        (o.deliverables = [] ∨ ∃ timeout, Duration.parse settings.timeout = .ok timeout)) ∧
    (∀ specs, JobRun.allDesired r.kind r settings = .ok specs →
      specs.map Prod.fst = List.range o.deliverables.length ∧
      ∀ i spec, (i, spec) ∈ specs → Directs o i spec) ∧
    Covers o (Config.operation o).render := by
  rw [hkind]
  refine ⟨exists_allDesired_iff hconfig, fun specs hspecs => ?_, covers_render hindices⟩
  obtain ⟨hfit, hnone | ⟨timeout, htime⟩⟩ := (exists_allDesired_iff hconfig).mp ⟨specs, hspecs⟩
  · rw [JobRun.allDesired_of_config hconfig rfl, if_neg (Nat.not_le.mpr hfit), hnone] at hspecs
    obtain rfl : [] = specs := Except.ok.inj hspecs
    rw [hnone]
    exact ⟨rfl, fun i spec hmem => absurd hmem List.not_mem_nil⟩
  · rw [JobRun.allDesired_eq hconfig rfl hfit htime] at hspecs
    obtain rfl := Except.ok.inj hspecs
    refine ⟨by rw [List.map_map]; exact List.map_id _, fun i spec hmem => ?_⟩
    obtain ⟨j, hj, heq⟩ := List.mem_map.mp hmem
    obtain ⟨rfl, rfl⟩ := Prod.mk.inj heq
    exact directs_specAt hindices r settings timeout (List.mem_range.mp hj) hfit

/-- Two archives, one with a manifest, declared with the indices 7 and 3. -/
def sparse : OperationConfig :=
  ⟨"o", .standard, [⟨7, "a.zip", some "7/pom.xml"⟩, ⟨3, "b.zip", none⟩]⟩

/-- A request to generate for them. -/
def sparseRequest : Request :=
  (Request.new "r" "1" .operation "o").setConfig (.operation sparse)

theorem desired_directs_sparse :
    sparseRequest.kind = .operation ∧ sparseRequest.config? = some (.operation sparse) ∧
    (Config.operation sparse).InRange ∧
    ((∃ specs, JobRun.allDesired sparseRequest.kind sparseRequest {} = .ok specs) ↔
      sparse.deliverables.length < Nat.pow 2 32 ∧
        (sparse.deliverables = [] ∨
          ∃ timeout, Duration.parse ({} : RunSettings).timeout = .ok timeout)) ∧
    (∀ specs, JobRun.allDesired sparseRequest.kind sparseRequest {} = .ok specs →
      specs.map Prod.fst = List.range sparse.deliverables.length ∧
      ∀ i spec, (i, spec) ∈ specs → Directs sparse i spec) ∧
    Covers sparse (Config.operation sparse).render := by
  have hindices : (Config.operation sparse).InRange := by
    show ∀ d ∈ sparse.deliverables, d.index < Nat.pow 2 32
    decide
  exact ⟨rfl, rfl, hindices, desired_directs rfl rfl hindices {}⟩

end BomAssembly.Command.Generate
