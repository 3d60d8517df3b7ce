import BomAssembly.Proofs.Control.Platform
import BomAssembly.Proofs.JobRun.Desired
import BomAssembly.Proofs.JobRun.Name

/-!
# Job runs do not compete for a name

The platform takes a name once, so two job runs that went by one name would stand in each other's way.
The name of a job run that is called for tells the request, the kind and the position
(`name_eq_iff_of_desired`), and taking one leaves every other name as free as it was. Only two requests
of one name and one kind can call for a job run of one name.
-/

namespace BomAssembly

theorem Phase.generating_inj {kind kind' : Kind}
    (h : Phase.generating kind = Phase.generating kind') : kind = kind' := by
  revert h
  cases kind <;> cases kind' <;> decide

/-- Creating a job run changes nothing for other names. -/
theorem Platform.get?_create_of_ne {name : String} {spec : JobRunSpec} (h : name ≠ spec.name)
    (p : Platform) : (p.create spec).1.runs.get? name = p.runs.get? name := by
  cases hoffline : p.offline with
  | true => rw [create, if_pos hoffline]
  | false =>
      rw [create_online hoffline]
      split
      · rfl
      · exact Text.StringMap.get?_insert_of_ne h

namespace JobRun

variable {kind kind' : Kind} {c c' : Config} {i j : Nat} {r r' : Request}
  {settings settings' : RunSettings} {spec spec' : JobRunSpec}

theorem name_of_desired (h : desired kind c i r settings = .ok spec) :
    spec.name = nameOf r.name (Phase.generating kind) i := by
  obtain ⟨n, timeout, -, -, -, rfl⟩ := desired_eq_ok_iff.mp h
  exact name_specAt kind c r settings timeout i

theorem name_eq_iff_of_desired (h : desired kind c i r settings = .ok spec)
    (h' : desired kind' c' j r' settings' = .ok spec') :
    spec.name = spec'.name ↔ r.name = r'.name ∧ kind = kind' ∧ i = j := by
  rw [name_of_desired h, name_of_desired h']
  constructor
  · intro heq
    obtain ⟨hname, hphase, hindex⟩ := nameOf_inj heq
    exact ⟨hname, Phase.generating_inj hphase, hindex⟩
  · rintro ⟨hname, rfl, rfl⟩
    rw [hname]

/-- **A name stands for one job run.** It tells request, phase and index, and an index that can be told
is read back from it. So job runs that are called for share a name only if they are for one name of
request, one kind and one position, and otherwise the one does not keep the platform from taking the
other. -/
theorem names_distinct (request other : String) (phase phase' : Phase) (i j : Nat) :
    (nameOf request phase i = nameOf other phase' j ↔ request = other ∧ phase = phase' ∧ i = j) ∧
    indexOf? (nameOf request phase i) = (if i < Nat.pow 2 32 then some i else none) ∧
    ∀ kind c r settings spec kind' c' r' settings' spec',
      desired kind c i r settings = .ok spec → desired kind' c' j r' settings' = .ok spec' →
      (spec.name = spec'.name ↔ r.name = r'.name ∧ kind = kind' ∧ i = j) ∧
      (¬ (r.name = r'.name ∧ kind = kind' ∧ i = j) → ∀ p : Platform,
        (p.create spec).1.runs.get? spec'.name = p.runs.get? spec'.name) := by
  refine ⟨⟨nameOf_inj, ?_⟩, ?_, ?_⟩
  · rintro ⟨rfl, rfl, rfl⟩
    rfl
  · split
    · next hlt => exact indexOf?_nameOf hlt request phase
    · next hle => exact indexOf?_nameOf_of_le (Nat.not_lt.mp hle) request phase
  · intro kind c r settings spec kind' c' r' settings' spec' h h'
    -- a job run goes by the name for its request, kind and position
    have hiff := name_eq_iff_of_desired h h'
    refine ⟨hiff, fun hne p => Platform.get?_create_of_ne ?_ p⟩
    exact fun heq => hne (hiff.mp heq.symm)

/-- A build of two products. -/
def pairBuild : Config := .build ⟨"b", [.standard, .standard]⟩

/-- A request may go by a name that ends like that of a job run of another one. -/
theorem names_distinct_nested : ∃ spec spec',
    desired .build pairBuild 1 (.new "r" "1" .build "b") {} = .ok spec ∧
    desired .build pairBuild 0 (.new "r-1-generate-1" "2" .build "b") {} = .ok spec' ∧
    spec.name ≠ spec'.name := by
  have htimeout : Duration.parse ({} : RunSettings).timeout = .ok 21600000 := by decide
  have hdesired : ∀ i < 2, ∀ r, desired .build pairBuild i r {} =
      .ok (specAt .build pairBuild r {} 21600000 i) := by
    intro i hi r
    exact desired_eq_ok_iff.mpr ⟨2, _, rfl, hi, htimeout, rfl⟩
  refine ⟨_, _, hdesired 1 (by decide) _, hdesired 0 (by decide) _, fun heq => ?_⟩
  obtain ⟨-, -, hall⟩ := names_distinct "r" "r-1-generate-1" .generate .generate 1 0
  obtain ⟨hiff, -⟩ := hall _ _ _ _ _ _ _ _ _ _ (hdesired 1 (by decide) (.new "r" "1" .build "b"))
    (hdesired 0 (by decide) (.new "r-1-generate-1" "2" .build "b"))
  exact absurd (hiff.mp heq).2.2 (by decide)

end JobRun

end BomAssembly
