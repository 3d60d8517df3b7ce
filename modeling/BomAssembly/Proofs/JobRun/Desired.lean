import BomAssembly.JobRun.Desired
import BomAssembly.Proofs.Fallible
import BomAssembly.Proofs.Request.Moves

/-!
# The job runs that a request calls for, in one equation

With a time limit that can be read and fewer than `2 ^ 32` positions there is one spec for each
position, in order (`allDesired_eq`). The spec looks at nothing in the request that a pass changes.
-/

namespace BomAssembly.JobRun

/-- The spec for a position, given how long a job run may take. -/
def specAt (kind : Kind) (c : Config) (r : Request) (settings : RunSettings) (timeout i : Nat) :
    JobRunSpec :=
  stamped (unstamped kind c i r settings timeout)

@[simp] theorem name_specAt (kind : Kind) (c : Config) (r : Request) (settings : RunSettings)
    (timeout i : Nat) :
    (specAt kind c r settings timeout i).name = nameOf r.name (Phase.generating kind) i := rfl

/-- The spec does not depend on how far the request has come. -/
theorem specAt_inStatus (kind : Kind) (c : Config) (r : Request) (s : Status)
    (settings : RunSettings) (timeout i : Nat) :
    specAt kind c (r.inStatus s) settings timeout i = specAt kind c r settings timeout i := rfl

section

variable {kind : Kind} {c : Config} {r : Request} {settings : RunSettings} {n timeout : Nat}

theorem desired_of_lt (hn : count kind c = .ok n) {i : Nat} (hi : i < n) :
    desired kind c i r settings =
      (Duration.parse settings.timeout).map fun t => specAt kind c r settings t i := by
  rw [desired, hn]
  show (if n ≤ i then _ else _) = _
  rw [if_neg (Nat.not_le.mpr hi)]
  cases Duration.parse settings.timeout <;> rfl

/-- **A job run can be told for the positions there are**, if the time limit can be read. -/
theorem desired_eq_ok_iff {i : Nat} {spec : JobRunSpec} : desired kind c i r settings = .ok spec ↔
    ∃ n timeout, count kind c = .ok n ∧ i < n ∧ Duration.parse settings.timeout = .ok timeout ∧
      specAt kind c r settings timeout i = spec := by
  constructor
  · intro h
    obtain ⟨n, hn, hrest⟩ := bind_eq_ok.mp h
    by_cases hi : i < n
    · rw [desired_of_lt hn hi] at h
      obtain ⟨timeout, ht, hspec⟩ := map_eq_ok.mp h
      exact ⟨n, timeout, hn, hi, ht, hspec⟩
    · rw [if_pos (Nat.not_lt.mp hi)] at hrest
      exact absurd hrest (by simp [throw, throwThe, MonadExceptOf.throw])
  · rintro ⟨n, timeout, hn, hi, ht, rfl⟩
    rw [desired_of_lt hn hi, ht]
    rfl

/-- A job run works in the part of the workspace that goes by the name of its request. -/
theorem subPath_of_desired {i : Nat} {spec : JobRunSpec} (h : desired kind c i r settings = .ok spec) :
    spec.workspace.subPath = r.name := by
  obtain ⟨n, timeout, -, -, -, rfl⟩ := desired_eq_ok_iff.mp h
  rfl

theorem allDesired_of_config (hc : r.config? = some c) (hn : count kind c = .ok n) :
    allDesired kind r settings =
      if Nat.pow 2 32 ≤ n then .error (.configuration "too many dependent resources")
      else (List.range n).mapM fun i => return (i, ← desired kind c i r settings) := by
  rw [allDesired, hc]
  dsimp only
  rw [hn]
  rfl

/-- **One spec for each position, in order.** -/
theorem allDesired_eq (hc : r.config? = some c) (hn : count kind c = .ok n)
    (hfit : n < Nat.pow 2 32) (ht : Duration.parse settings.timeout = .ok timeout) :
    allDesired kind r settings =
      .ok ((List.range n).map fun i => (i, specAt kind c r settings timeout i)) := by
  rw [allDesired_of_config hc hn, if_neg (Nat.not_le.mpr hfit)]
  refine mapM_ok_of_forall fun i hi => ?_
  rw [desired_of_lt hn (List.mem_range.mp hi), ht]
  rfl

theorem allDesired_of_many (hc : r.config? = some c) (hn : count kind c = .ok n)
    (hmany : Nat.pow 2 32 ≤ n) : allDesired kind r settings =
      .error (.configuration "too many dependent resources") := by
  rw [allDesired_of_config hc hn, if_pos hmany]

/-- Where job runs are told, the positions can be counted. -/
theorem lt_of_allDesired (hc : r.config? = some c) (hn : count kind c = .ok n)
    {desired : List (Nat × JobRunSpec)} (h : allDesired kind r settings = .ok desired) :
    n < Nat.pow 2 32 := by
  refine Nat.lt_of_not_le fun hmany => ?_
  rw [allDesired_of_many hc hn hmany] at h
  exact absurd h (by simp)

/-- A time limit that cannot be read is what goes wrong, if there is any position. -/
theorem allDesired_of_error (hc : r.config? = some c) (hn : count kind c = .ok n)
    (hfit : n < Nat.pow 2 32) (hpos : 0 < n) {e : Failure}
    (ht : Duration.parse settings.timeout = .error e) : allDesired kind r settings = .error e := by
  obtain ⟨k, rfl⟩ := Nat.exists_eq_succ_of_ne_zero (Nat.pos_iff_ne_zero.mp hpos)
  rw [allDesired_of_config hc hn, if_neg (Nat.not_le.mpr hfit), List.range_succ_eq_map,
    List.mapM_cons, desired_of_lt hn (Nat.zero_lt_succ k), ht]
  rfl

/-- Every job run that is called for is the one for its position. -/
theorem specAt_of_mem_allDesired {desired : List (Nat × JobRunSpec)}
    (h : allDesired kind r settings = .ok desired) {d : Nat × JobRunSpec} (hd : d ∈ desired) :
    ∃ c timeout, r.config? = some c ∧ Duration.parse settings.timeout = .ok timeout ∧
      d.2 = specAt kind c r settings timeout d.1 := by
  cases hc : r.config? with
  | none =>
      rw [allDesired, hc] at h
      exact absurd h (by simp [throw, throwThe, MonadExceptOf.throw])
  | some c =>
      have hcounted := h
      rw [allDesired, hc] at hcounted
      obtain ⟨n, hn, -⟩ := bind_eq_ok.mp hcounted
      rw [allDesired_of_config hc hn] at h
      split at h
      · exact absurd h (by simp)
      · obtain ⟨i, -, hi⟩ := exists_of_mem_mapM h d hd
        obtain ⟨spec, hspec, heq⟩ := bind_eq_ok.mp hi
        obtain ⟨n, timeout, -, -, ht, rfl⟩ := desired_eq_ok_iff.mp hspec
        rw [← Except.ok.inj heq]
        exact ⟨c, timeout, rfl, ht, rfl⟩

/-- It goes by a name of its family. -/
theorem name_of_mem_allDesired {desired : List (Nat × JobRunSpec)}
    (h : allDesired kind r settings = .ok desired) {d : Nat × JobRunSpec} (hd : d ∈ desired) :
    ∃ i, d.2.name = nameOf r.name (Phase.generating kind) i := by
  obtain ⟨c, timeout, -, -, hspec⟩ := specAt_of_mem_allDesired h hd
  exact ⟨d.1, hspec ▸ name_specAt _ _ _ _ _ _⟩

end

end BomAssembly.JobRun
