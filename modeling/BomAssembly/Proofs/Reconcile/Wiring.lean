import BomAssembly.Proofs.Reconcile.Completeness

/-!
# What a pass leaves alone, and what it wires

A pass appends components and touches nothing else but the dependency entries. These it changes in
two ways: a reference without an entry gets one, and the first entry of the root comes to list what
was added. Both are the same operation on a list of references, to append what is wanted and not there
yet (`missing`), so the whole pass is told by two such lists (`foldl_linked`).

The order matters little, since an entry that is appended never comes in front of the one that the
root has; the only entry of the root that a pass may append is its first.
-/

namespace BomAssembly.Reconcile

open Bom (withEntry modifyEntry dependOn)

/-! ## What is wanted and not there -/

/-- What is wanted and not there yet, in the order wanted. -/
def missing (there : List String) : List String → List String
  | [] => []
  | x :: xs => if x ∈ there then missing there xs else x :: missing (there ++ [x]) xs

/-- `new` is what is wanted and not there yet, in the order wanted and each once. -/
structure Supplies (there wanted new : List String) : Prop where
  nodup : new.Nodup
  mem_iff : ∀ x, x ∈ new ↔ x ∈ wanted ∧ x ∉ there
  sublist : new.Sublist wanted

theorem mem_missing_iff {there wanted : List String} {x : String} :
    x ∈ missing there wanted ↔ x ∈ wanted ∧ x ∉ there := by
  induction wanted generalizing there with
  | nil => simp [missing]
  | cons y ys ih =>
      rw [missing]
      split
      · next hy =>
        rw [ih, List.mem_cons]
        constructor
        · exact fun h => ⟨.inr h.1, h.2⟩
        · rintro ⟨rfl | hx, hnot⟩
          · exact absurd hy hnot
          · exact ⟨hx, hnot⟩
      · next hy =>
        rw [List.mem_cons, ih, List.mem_append, List.mem_singleton, List.mem_cons]
        by_cases hxy : x = y
        · simp [hxy, hy]
        · simp [hxy]

theorem supplies_missing (there wanted : List String) :
    Supplies there wanted (missing there wanted) := by
  refine ⟨?_, fun x => mem_missing_iff, ?_⟩
  · induction wanted generalizing there with
    | nil => exact List.nodup_nil
    | cons y ys ih =>
        rw [missing]
        split
        · exact ih there
        · refine List.nodup_cons.mpr ⟨fun hmem => ?_, ih _⟩
          exact (mem_missing_iff.mp hmem).2 (by simp)
  · induction wanted generalizing there with
    | nil => exact .slnil
    | cons y ys ih =>
        rw [missing]
        split
        · exact (ih there).cons y
        · exact (ih _).cons_cons y

/-! ## One entry more -/

/-- An entry that depends on nothing. -/
def blankEntry (ref : String) : Dependency := ⟨ref, [], []⟩

section Entries

variable {r x : String} {f : Dependency → Dependency} {es : List Dependency}

theorem withEntry_of_mem (h : x ∈ es.map Dependency.ref) : withEntry x es = es := by
  obtain ⟨d, hd, hx⟩ := List.mem_map.mp h
  have hany : es.any (·.ref == x) = true := List.any_eq_true.mpr ⟨d, hd, beq_iff_eq.mpr hx⟩
  exact if_pos hany

theorem withEntry_of_not_mem (h : x ∉ es.map Dependency.ref) :
    withEntry x es = es ++ [blankEntry x] := by
  refine if_neg fun hany => h ?_
  obtain ⟨d, hd, hx⟩ := List.any_eq_true.mp hany
  exact List.mem_map.mpr ⟨d, hd, beq_iff_eq.mp hx⟩

theorem mem_withEntry (x : String) (es : List Dependency) :
    x ∈ (withEntry x es).map Dependency.ref := by
  by_cases h : x ∈ es.map Dependency.ref
  · rw [withEntry_of_mem h]
    exact h
  · rw [withEntry_of_not_mem h]
    simp [blankEntry]

theorem mem_withEntry_of_mem (h : r ∈ es.map Dependency.ref) (x : String) :
    r ∈ (withEntry x es).map Dependency.ref := by
  by_cases hx : x ∈ es.map Dependency.ref
  · rw [withEntry_of_mem hx]
    exact h
  · rw [withEntry_of_not_mem hx, List.map_append]
    exact List.mem_append_left _ h

theorem foldl_withEntry (refs : List String) (es : List Dependency) :
    refs.foldl (fun es ref => withEntry ref es) es =
      es ++ (missing (es.map Dependency.ref) refs).map blankEntry := by
  induction refs generalizing es with
  | nil => exact (List.append_nil es).symm
  | cons x xs ih =>
      rw [List.foldl_cons, ih, missing]
      split
      · next hx => rw [withEntry_of_mem hx]
      · next hx =>
        rw [withEntry_of_not_mem hx, List.map_append, List.append_assoc]
        rfl

/-! ## A change to the first entry of a reference -/

/-- What a change leaves alone is the same in all entries. -/
theorem map_modifyEntry {α : Type} {label : Dependency → α} (h : ∀ d, label (f d) = label d)
    (r : String) (es : List Dependency) : (modifyEntry r f es).map label = es.map label := by
  induction es with
  | nil => rfl
  | cons d es ih =>
      rw [modifyEntry]
      split
      · rw [List.map_cons, List.map_cons, h]
      · rw [List.map_cons, List.map_cons, ih]

theorem findIdx?_modifyEntry (hf : ∀ d, (f d).ref = d.ref) (r x : String) (es : List Dependency) :
    (modifyEntry r f es).findIdx? (·.ref == x) = es.findIdx? (·.ref == x) := by
  have hrefs := congrArg (List.findIdx? (· == x)) (map_modifyEntry hf r es)
  rw [List.findIdx?_map, List.findIdx?_map] at hrefs
  exact hrefs

theorem modifyEntry_append (h : r ∈ es.map Dependency.ref) (more : List Dependency) :
    modifyEntry r f (es ++ more) = modifyEntry r f es ++ more := by
  induction es with
  | nil => exact absurd h List.not_mem_nil
  | cons d es ih =>
      rw [List.cons_append, modifyEntry, modifyEntry]
      split
      · rfl
      · next hd =>
        have hes : r ∈ es.map Dependency.ref := (List.mem_cons.mp h).resolve_left (Ne.symm hd)
        rw [ih hes, List.cons_append]

theorem modifyEntry_modifyEntry {g : Dependency → Dependency} (hg : ∀ d, (g d).ref = d.ref)
    (r : String) (es : List Dependency) :
    modifyEntry r f (modifyEntry r g es) = modifyEntry r (fun d => f (g d)) es := by
  induction es with
  | nil => rfl
  | cons d es ih =>
      rw [modifyEntry, modifyEntry]
      split
      · next hd => rw [modifyEntry, if_pos ((hg d).trans hd)]
      · next hd => rw [modifyEntry, if_neg hd, ih]

/-- An entry for another reference makes no difference to a change, once there is one to change. -/
theorem withEntry_modifyEntry (hf : ∀ d, (f d).ref = d.ref) (h : r ∈ es.map Dependency.ref) :
    withEntry x (modifyEntry r f es) = modifyEntry r f (withEntry x es) := by
  by_cases hx : x ∈ es.map Dependency.ref
  · have hx' : x ∈ (modifyEntry r f es).map Dependency.ref := by
      rw [map_modifyEntry hf]
      exact hx
    rw [withEntry_of_mem hx, withEntry_of_mem hx']
  · have hx' : x ∉ (modifyEntry r f es).map Dependency.ref := by
      rw [map_modifyEntry hf]
      exact hx
    rw [withEntry_of_not_mem hx, withEntry_of_not_mem hx', modifyEntry_append h]

theorem foldl_withEntry_modifyEntry (hf : ∀ d, (f d).ref = d.ref) (h : r ∈ es.map Dependency.ref)
    (refs : List String) :
    refs.foldl (fun es ref => withEntry ref es) (modifyEntry r f es) =
      modifyEntry r f (refs.foldl (fun es ref => withEntry ref es) es) := by
  induction refs generalizing es with
  | nil => rfl
  | cons x xs ih =>
      rw [List.foldl_cons, List.foldl_cons, withEntry_modifyEntry hf h,
        ih (mem_withEntry_of_mem h x)]

/-- A change is seen at the first entry of the reference and nowhere else. -/
theorem getElem?_modifyEntry (r : String) (f : Dependency → Dependency) (es : List Dependency)
    (i : Nat) : (modifyEntry r f es)[i]? =
      if es.findIdx? (·.ref == r) = some i then es[i]?.map f else es[i]? := by
  induction es generalizing i with
  | nil => simp [modifyEntry]
  | cons d es ih =>
      rw [modifyEntry, List.findIdx?_cons]
      by_cases hd : d.ref = r
      · have hbeq : (d.ref == r) = true := beq_iff_eq.mpr hd
        rw [if_pos hd, hbeq]
        cases i with
        | zero => simp
        | succ i => simp
      · have hbeq : (d.ref == r) = false := beq_eq_false_iff_ne.mpr hd
        rw [if_neg hd, hbeq]
        cases i with
        | zero => simp
        | succ i =>
            rw [List.getElem?_cons_succ, List.getElem?_cons_succ, ih]
            simp

end Entries

/-! ## The entries of a pass -/

/-- The entries of a bill of materials; none if it has no list of them. -/
def entries (b : Bom) : List Dependency := b.dependencies.getD []

/-- The entries when one more component was added. -/
def linked (root : Option String) (es : List Dependency) (ref : String) : List Dependency :=
  match root with
  | none => withEntry ref es
  | some r => modifyEntry r (dependOn ref) (withEntry r (withEntry ref es))

/-- The references that have an entry when components were added. -/
def wanted (root : Option String) (refs : List String) : List String :=
  refs.flatMap fun ref => ref :: root.toList

/-- Let an entry depend on all of these references. -/
def dependOnAll (refs : List String) (d : Dependency) : Dependency :=
  { d with dependsOn := d.dependsOn ++ missing d.dependsOn refs }

theorem dependencies_addComponent (b : Bom) (c : Component) (ref : String) (root : Option String) :
    (addComponent b c ref root).dependencies = some (linked root (entries b) ref) := by
  cases root <;> rfl

theorem ref_dependOn (ref : String) (d : Dependency) : (dependOn ref d).ref = d.ref := by
  unfold dependOn
  split <;> rfl

theorem ref_dependOnAll (refs : List String) (d : Dependency) : (dependOnAll refs d).ref = d.ref := rfl

theorem dependOnAll_dependOn (ref : String) (refs : List String) (d : Dependency) :
    dependOnAll refs (dependOn ref d) = dependOnAll (ref :: refs) d := by
  rw [dependOnAll, dependOnAll, missing, dependOn]
  split
  · rfl
  · simp

/-- **The entries of a pass**: those that were missing are appended, and the root comes to depend on
all that was added. -/
theorem foldl_linked (root : Option String) (refs : List String) (es : List Dependency) :
    refs.foldl (linked root) es =
      match root with
      | none => (wanted none refs).foldl (fun es ref => withEntry ref es) es
      | some r => modifyEntry r (dependOnAll refs)
          ((wanted (some r) refs).foldl (fun es ref => withEntry ref es) es) := by
  cases root with
  | none =>
      have hwanted : wanted none refs = refs := by simp [wanted]
      rw [hwanted]
      rfl
  | some r =>
      dsimp only
      induction refs generalizing es with
      | nil =>
          have hself : ∀ d : Dependency, dependOnAll [] d = d := fun d => by simp [dependOnAll, missing]
          induction es with
          | nil => rfl
          | cons d es ih =>
              show d :: es = modifyEntry r (dependOnAll []) (d :: es)
              rw [modifyEntry, hself]
              split
              · rfl
              · exact congrArg (d :: ·) ih
      | cons x xs ih =>
          have hroot := mem_withEntry r (withEntry x es)
          have hwanted : wanted (some r) (x :: xs) = x :: r :: wanted (some r) xs := rfl
          rw [List.foldl_cons, ih, hwanted, List.foldl_cons, List.foldl_cons, linked,
            foldl_withEntry_modifyEntry (ref_dependOn x) hroot,
            modifyEntry_modifyEntry (ref_dependOn x)]
          exact congrArg (modifyEntry r · _) (funext fun d => dependOnAll_dependOn x xs d)

/-! ## What was added is wired -/

/-- The place of the root's first entry. -/
def rootPlace (root : Option String) (es : List Dependency) : Option Nat :=
  root.bind fun r => es.findIdx? (·.ref == r)

/-- What the entry at a place depends on; nothing if there is none. -/
def dependsOnAt (es : List Dependency) (i : Nat) : List String := (es[i]?.map (·.dependsOn)).getD []

/-- The references `refs` were wired into the entries `before`, and nothing else was done to them. -/
structure Wired (root : Option String) (refs : List String) (before after : List Dependency) :
    Prop where
  /-- The entries that were there stand in front, in order, with the same references and extra fields.
  Behind them is one for each reference that had none, of those added and the root. -/
  kept : ∃ new, Supplies (before.map Dependency.ref) (wanted root refs) new ∧
    after.map (fun d => (d.ref, d.extra)) =
      before.map (fun d => (d.ref, d.extra)) ++ new.map fun ref => (ref, [])
  /-- Whatever was added has an entry. -/
  entered : ∀ ref ∈ refs, ref ∈ after.map Dependency.ref
  /-- So has the root. -/
  rooted : root.isSome → (rootPlace root after).isSome
  /-- The first entry of the root has what was added appended, so far as it did not list it before.
  No other edge is new. -/
  edges : ∀ i d, after[i]? = some d → ∃ more, d.dependsOn = dependsOnAt before i ++ more ∧
    Supplies (dependsOnAt before i) (if rootPlace root after = some i then refs else []) more
  /-- The first entry of the root lists whatever was added. -/
  linked : ∀ i d, rootPlace root after = some i → after[i]? = some d →
    ∀ ref ∈ refs, ref ∈ d.dependsOn

theorem mem_wanted {root : Option String} {refs : List String} {ref : String} (h : ref ∈ refs) :
    ref ∈ wanted root refs :=
  List.mem_flatMap.mpr ⟨ref, h, List.mem_cons_self⟩

theorem root_mem_wanted {r : String} {refs : List String} (h : refs ≠ []) :
    r ∈ wanted (some r) refs := by
  obtain ⟨ref, hmem⟩ := List.exists_mem_of_ne_nil refs h
  exact List.mem_flatMap.mpr ⟨ref, hmem, by simp⟩

/-- Entries that have been appended depend on nothing. -/
theorem dependsOn_of_append_blank {es : List Dependency} {new : List String} {i : Nat}
    {d : Dependency} (h : (es ++ new.map blankEntry)[i]? = some d) :
    d.dependsOn = dependsOnAt es i := by
  rcases Nat.lt_or_ge i es.length with hi | hi
  · rw [List.getElem?_append_left hi] at h
    rw [dependsOnAt, h]
    rfl
  · have hnone : es[i]? = none := List.getElem?_eq_none hi
    rw [List.getElem?_append_right hi, List.getElem?_map] at h
    obtain ⟨ref, -, rfl⟩ := Option.map_eq_some_iff.mp h
    rw [dependsOnAt, hnone]
    rfl

/-- An entry lists what it was made to depend on. -/
theorem mem_append_of_supplies {there wanted new : List String} (h : Supplies there wanted new)
    {ref : String} (hmem : ref ∈ wanted) : ref ∈ there ++ new := by
  by_cases hthere : ref ∈ there
  · exact List.mem_append_left _ hthere
  · exact List.mem_append_right _ ((h.mem_iff ref).mpr ⟨hmem, hthere⟩)

/-- Nothing is all there is to add to what is not wanted. -/
theorem supplies_nothing (there : List String) : Supplies there [] [] :=
  ⟨List.nodup_nil, by simp, List.Sublist.refl []⟩

section Wired

variable {refs : List String} {es : List Dependency}

/-- The entries with those that were missing. -/
def entered (root : Option String) (refs : List String) (es : List Dependency) : List Dependency :=
  es ++ (missing (es.map Dependency.ref) (wanted root refs)).map blankEntry

theorem mem_entered {root : Option String} {ref : String} (h : ref ∈ wanted root refs) :
    ref ∈ (entered root refs es).map Dependency.ref := by
  have hmem := mem_append_of_supplies (supplies_missing (es.map Dependency.ref) _) h
  rw [entered, List.map_append, List.map_map]
  simpa [Function.comp_def, blankEntry] using hmem

theorem labels_entered (root : Option String) (refs : List String) (es : List Dependency) :
    (entered root refs es).map (fun d => (d.ref, d.extra)) =
      es.map (fun d => (d.ref, d.extra)) ++
        (missing (es.map Dependency.ref) (wanted root refs)).map fun ref => (ref, []) := by
  rw [entered, List.map_append, List.map_map]
  rfl

/-- Without a root there is no edge to add. -/
theorem wired_of_rootless (refs : List String) (es : List Dependency) :
    Wired none refs es (entered none refs es) := by
  refine ⟨⟨_, supplies_missing _ _, labels_entered none refs es⟩, fun ref href => ?_, by simp,
    fun i d hd => ⟨[], ?_, ?_⟩, by simp [rootPlace]⟩
  · exact mem_entered (mem_wanted href)
  · rw [List.append_nil]
    exact dependsOn_of_append_blank hd
  · exact supplies_nothing _

/-- With one, its first entry lists what was added. -/
theorem wired_of_root (r : String) (hrefs : refs ≠ []) (es : List Dependency) :
    Wired (some r) refs es (modifyEntry r (dependOnAll refs) (entered (some r) refs es)) := by
  have hlabel : ∀ d, ((dependOnAll refs d).ref, (dependOnAll refs d).extra) = (d.ref, d.extra) :=
    fun _ => rfl
  have hplace : rootPlace (some r) (modifyEntry r (dependOnAll refs) (entered (some r) refs es)) =
      (entered (some r) refs es).findIdx? (·.ref == r) :=
    findIdx?_modifyEntry (ref_dependOnAll refs) r r _
  have hedges : ∀ i d, (modifyEntry r (dependOnAll refs) (entered (some r) refs es))[i]? = some d →
      ∃ more, d.dependsOn = dependsOnAt es i ++ more ∧ Supplies (dependsOnAt es i)
        (if (entered (some r) refs es).findIdx? (·.ref == r) = some i then refs else []) more := by
    intro i d hd
    rw [getElem?_modifyEntry] at hd
    split at hd
    · next hi =>
      obtain ⟨e, he, rfl⟩ := Option.map_eq_some_iff.mp hd
      rw [if_pos hi, ← dependsOn_of_append_blank he]
      exact ⟨_, rfl, supplies_missing _ _⟩
    · next hi =>
      rw [if_neg hi]
      exact ⟨[], by rw [List.append_nil, dependsOn_of_append_blank hd], supplies_nothing _⟩
  refine ⟨⟨_, supplies_missing _ _, ?_⟩, fun ref href => ?_, fun _ => ?_, ?_, ?_⟩
  · rw [map_modifyEntry hlabel, labels_entered]
  · rw [map_modifyEntry (ref_dependOnAll refs)]
    exact mem_entered (mem_wanted href)
  · have hroot : r ∈ (entered (some r) refs es).map Dependency.ref :=
      mem_entered (root_mem_wanted hrefs)
    obtain ⟨d, hd, hr⟩ := List.mem_map.mp hroot
    rw [hplace, List.findIdx?_isSome]
    exact List.any_eq_true.mpr ⟨d, hd, beq_iff_eq.mpr hr⟩
  · rw [hplace]
    exact hedges
  · intro i d hi hd ref href
    rw [hplace] at hi
    obtain ⟨more, heq, hmore⟩ := hedges i d hd
    rw [if_pos hi] at hmore
    rw [heq]
    exact mem_append_of_supplies hmore href

/-- **What a pass adds is wired**, and only that. -/
theorem wired_foldl_linked (root : Option String) (hrefs : refs ≠ []) (es : List Dependency) :
    Wired root refs es (refs.foldl (linked root) es) := by
  rw [foldl_linked]
  cases root with
  | none =>
      dsimp only
      rw [foldl_withEntry]
      exact wired_of_rootless refs es
  | some r =>
      dsimp only
      rw [foldl_withEntry]
      exact wired_of_root r hrefs es

end Wired

/-! ## The whole pass -/

/-- The references of what a pass added. -/
def addedRefs (r : Report) : List String := r.added.map Addition.declared

/-- The bill of materials `out` is `b` with the reported components added and wired, and nothing else
done to it. -/
structure Extends (b out : Bom) (report : Report) : Prop where
  /-- The components that were there stand in front, and each one behind them goes by the reference
  that was reported for it. -/
  components : ∃ clones, out.components = b.components ++ clones ∧
    clones.map Component.reference = (addedRefs report).map some
  /-- But for components and entries all is as it was. -/
  rest : { out with components := b.components, dependencies := b.dependencies } = b
  /-- Without additions all is as it was. -/
  idle : report.added = [] → out = b
  /-- With additions there are entries, and what was added is wired into them. -/
  wired : report.added ≠ [] → out.dependencies.isSome ∧
    Wired b.rootRef (addedRefs report) (entries b) (entries out)

theorem rest_foldl_addTo (root : Option String) (cs : List Choice) (b out : Bom)
    (h : { out with components := b.components, dependencies := b.dependencies } = b) :
    { cs.foldl (Choice.addTo root) out with
      components := b.components, dependencies := b.dependencies } = b := by
  induction cs generalizing out with
  | nil => exact h
  | cons c cs ih =>
      refine ih _ (Eq.trans ?_ h)
      cases root <;> rfl

theorem dependencies_foldl_addTo (root : Option String) (cs : List Choice) (hcs : cs ≠ [])
    (b : Bom) : (cs.foldl (Choice.addTo root) b).dependencies =
      some ((cs.map fun c => c.declared.render).foldl (linked root) (entries b)) := by
  induction cs generalizing b with
  | nil => exact absurd rfl hcs
  | cons c cs ih =>
      have hfirst := dependencies_addComponent b c.clone c.declared.render root
      cases cs with
      | nil => exact hfirst
      | cons c' cs =>
          have hentries : entries (c.addTo root b) = linked root (entries b) c.declared.render :=
            congrArg (Option.getD · []) hfirst
          rw [List.foldl_cons, ih (by simp), hentries]
          rfl

section

variable {m : Manifest} {b : Bom}

theorem extends_of_eq (hcount : m.size = b.components.length) :
    Extends b (reconcile m b).1 (reconcile m b).2 := by
  rw [reconcile_of_eq hcount]
  exact ⟨⟨[], (List.append_nil _).symm, rfl⟩, rfl, fun _ => rfl, fun hadded => absurd rfl hadded⟩

theorem extends_of_ne (hcount : m.size ≠ b.components.length) :
    Extends b (reconcile m b).1 (reconcile m b).2 := by
  have hmade := run_made m b
  have hadded : (run m b).added = (chosen m b).map Choice.addition := hmade.added
  have hrefs : (run m b).added.map Addition.declared =
      (chosen m b).map fun c => c.declared.render := by
    rw [hadded, List.map_map]
    rfl
  rw [reconcile_of_ne hcount]
  refine ⟨⟨(chosen m b).map Choice.clone, components_run m b, ?_⟩, ?_, fun hnone => ?_,
    fun hsome => ?_⟩
  · show _ = ((run m b).added.map Addition.declared).map some
    rw [hrefs, List.map_map, List.map_map]
    rfl
  · show { (run m b).bom with components := b.components, dependencies := b.dependencies } = b
    rw [hmade.bom]
    exact rest_foldl_addTo b.rootRef _ b _ rfl
  · have hnil : chosen m b = [] := List.map_eq_nil_iff.mp (hadded.symm.trans hnone)
    show (run m b).bom = b
    rw [hmade.bom, hnil]
    rfl
  · have hchosen : chosen m b ≠ [] := fun hnil => hsome (by rw [hadded, hnil]; rfl)
    have hne : (run m b).added.map Addition.declared ≠ [] := by
      rw [hrefs]
      simpa using hchosen
    have hentries : (run m b).bom.dependencies = some
        (((run m b).added.map Addition.declared).foldl (linked b.rootRef) (entries b)) := by
      rw [hmade.bom, hrefs]
      exact dependencies_foldl_addTo b.rootRef _ hchosen b
    have hout : entries (run m b).bom =
        ((run m b).added.map Addition.declared).foldl (linked b.rootRef) (entries b) :=
      congrArg (Option.getD · []) hentries
    refine ⟨by rw [hentries]; rfl, ?_⟩
    show Wired b.rootRef ((run m b).added.map Addition.declared) (entries b)
      (entries (run m b).bom)
    rw [hout]
    exact wired_foldl_linked b.rootRef hne (entries b)

end

/-- **A pass only adds, and wires just what it adds**, whatever is declared and whatever was there. -/
theorem reconcile_extends (m : Manifest) (b : Bom) :
    Extends b (reconcile m b).1 (reconcile m b).2 := by
  by_cases hcount : m.size = b.components.length
  · exact extends_of_eq hcount
  · exact extends_of_ne hcount

end BomAssembly.Reconcile
