import BomAssembly.Proofs.Reconcile.References

/-!
# The order of declarations

Each copy that a pass makes is present for the declared coordinates that follow, so a pass depends on
the order in which they come. What depends on it is little. Coordinates that match are copied from the
same component with the same score, and of those that match each other one is copied whichever comes
first. So two orders lead to copies that can be paired off, each with one for a matching coordinate
(`rel_choices`): the induction is on how the one order is rearranged into the other, and its step, two
neighbours that change places, is `rel_choices_swap`.

The two orders may differ only in which spelling of a coordinate is taken. Where no coordinate is
declared in two spellings, as in every Maven project, they lead to the same copies (`reconcile_perm`).
-/

namespace BomAssembly

open Coordinate (MatchesExactly)

namespace Coordinate

variable {d e : Coordinate}

theorem similarity_congr (h : MatchesExactly d e) (k : Coordinate) :
    d.similarity k = e.similarity k := by
  obtain ⟨hsame, hversion, -⟩ := h
  unfold similarity
  rw [hversion]
  exact if_congr ⟨hsame.symm.trans, hsame.trans⟩ rfl rfl

/-- **Maven coordinates have one spelling**: the packaging is always written. -/
theorem eq_of_maven_matches {group group' artifact artifact' : String}
    {version version' packaging packaging' classifier classifier' : Option String}
    (h : MatchesExactly (maven group artifact version packaging classifier)
      (maven group' artifact' version' packaging' classifier')) :
    maven group artifact version packaging classifier =
      maven group' artifact' version' packaging' classifier' := by
  obtain ⟨⟨-, hgroup, hname, hpackaging, hclassifier⟩, hversion, -, -⟩ := h
  rw [packaging_maven, packaging_maven] at hpackaging
  rw [classifier_maven, classifier_maven] at hclassifier
  obtain rfl : group = group' := Option.some.inj hgroup
  obtain rfl : artifact = artifact' := hname
  have hgiven : version.filter (· ≠ "") = version'.filter (· ≠ "") := hversion
  unfold maven
  rw [Option.some.inj hpackaging, hclassifier, hgiven]

end Coordinate

/-- Declared coordinates that match are written alike. -/
def Manifest.WrittenOneWay (m : Manifest) : Prop :=
  ∀ d ∈ m.dependencies, ∀ e ∈ m.dependencies, MatchesExactly d e → d.render = e.render

theorem Manifest.writtenOneWay_of_parsePom {content : String} {m : Manifest}
    (h : parsePom content = .ok m) : m.WrittenOneWay := by
  intro d hd e he hmatch
  obtain ⟨group, artifact, version, packaging, classifier, rfl⟩ := made_of_parsePom h d hd
  obtain ⟨group', artifact', version', packaging', classifier', rfl⟩ := made_of_parsePom h e he
  rw [Coordinate.eq_of_maven_matches hmatch]

namespace Reconcile

/-! ## Copies for coordinates that match -/

/-- Copies of one component, with one score, for coordinates that match. -/
structure Choice.Alike (c e : Choice) : Prop where
  declared : MatchesExactly c.declared e.declared
  source : c.source = e.source
  score : c.score = e.score

namespace Choice

variable {c e f : Choice}

theorem Alike.refl (c : Choice) : Alike c c := ⟨.refl _, rfl, rfl⟩

theorem Alike.trans (h : Alike c e) (h' : Alike e f) : Alike c f :=
  ⟨h.declared.trans h'.declared, h.source.trans h'.source, h.score.trans h'.score⟩

instance : IsTrans Choice Alike := ⟨fun _ _ _ => Alike.trans⟩

/-- Copies that are alike differ in the spelling of their coordinates only. -/
theorem Alike.clone_eq (h : Alike c e) (htext : c.declared.render = e.declared.render) :
    c.addition = e.addition ∧ c.clone = e.clone := by
  constructor
  · unfold addition
    rw [htext, h.source, h.score]
  · unfold clone Component.cloneAs
    rw [htext, h.source, h.declared.2.1]

end Choice

section Choices

variable {cs : List (Component × Coordinate)} {present present' ds es : List Coordinate}
  {d e : Coordinate}

theorem bestCandidate_congr (h : MatchesExactly d e) (cs : List (Component × Coordinate)) :
    bestCandidate d cs = bestCandidate e cs := by
  have hbetter : better d = better e := by
    funext best candidate
    unfold better
    rw [Coordinate.similarity_congr h]
  unfold bestCandidate
  rw [hbetter]

/-- No copy is made for a coordinate: something that is present matches it, or it has no
candidate. -/
def PassedBy (cs : List (Component × Coordinate)) (present : List Coordinate) (d : Coordinate) :
    Prop :=
  (∃ k ∈ present, MatchesExactly k d) ∨ bestCandidate d cs = none

theorem PassedBy.append (h : PassedBy cs present d) (more : List Coordinate) :
    PassedBy cs (present ++ more) d := by
  rcases h with ⟨k, hk, hmatch⟩ | hnone
  · exact .inl ⟨k, List.mem_append_left _ hk, hmatch⟩
  · exact .inr hnone

/-- One more that is present makes a difference for what it matches. -/
theorem passedBy_concat_iff :
    PassedBy cs (present ++ [e]) d ↔ MatchesExactly e d ∨ PassedBy cs present d := by
  unfold PassedBy
  simp only [List.mem_append, List.mem_singleton]
  grind

theorem choices_of_passedBy (h : PassedBy cs present d) (ds : List Coordinate) :
    choices cs present (d :: ds) = choices cs present ds := by
  rw [choices]
  split
  · rfl
  · next hpresent =>
    -- nothing that is present matches it, so it has no candidate
    have hnone : bestCandidate d cs = none := by
      refine h.resolve_left ?_
      rintro ⟨k, hk, hmatch⟩
      exact hpresent (List.any_eq_true.mpr ⟨k, hk, decide_eq_true hmatch⟩)
    rw [hnone]

theorem choices_of_not_passedBy (h : ¬ PassedBy cs present d) : ∃ source score,
    bestCandidate d cs = some (source, score) ∧ ∀ ds, choices cs present (d :: ds) =
      ⟨d, source, score⟩ :: choices cs (present ++ [d]) ds := by
  obtain ⟨hpresent, hbest⟩ := not_or.mp h
  obtain ⟨⟨source, score⟩, hsome⟩ := Option.ne_none_iff_exists'.mp hbest
  refine ⟨source, score, hsome, fun ds => ?_⟩
  rw [choices, if_neg, hsome]
  intro hany
  obtain ⟨k, hk, hmatch⟩ := List.any_eq_true.mp hany
  exact hpresent ⟨k, hk, of_decide_eq_true hmatch⟩

/-- **What is present counts only through what is passed by for it.** -/
theorem choices_congr (h : ∀ d, PassedBy cs present d ↔ PassedBy cs present' d)
    (ds : List Coordinate) : choices cs present ds = choices cs present' ds := by
  induction ds generalizing present present' with
  | nil => rfl
  | cons d ds ih =>
      by_cases hd : PassedBy cs present d
      · rw [choices_of_passedBy hd, choices_of_passedBy ((h d).mp hd)]
        exact ih h
      · obtain ⟨source, score, hbest, hchoices⟩ := choices_of_not_passedBy hd
        obtain ⟨source', score', hbest', hchoices'⟩ :=
          choices_of_not_passedBy (mt (h d).mpr hd)
        obtain ⟨rfl, rfl⟩ := Prod.mk.inj (Option.some.inj (hbest.symm.trans hbest'))
        rw [hchoices, hchoices']
        refine congrArg _ (ih fun e => ?_)
        rw [passedBy_concat_iff, passedBy_concat_iff, h e]

/-! ## Two neighbours that change places -/

/-- One that is passed by may stand before or behind its neighbour. -/
theorem choices_swap_of_passedBy (h : PassedBy cs present d) (e : Coordinate)
    (ds : List Coordinate) :
    choices cs present (d :: e :: ds) = choices cs present (e :: d :: ds) := by
  rw [choices_of_passedBy h]
  by_cases he : PassedBy cs present e
  · rw [choices_of_passedBy he, choices_of_passedBy he, choices_of_passedBy h]
  · obtain ⟨source, score, -, hchoices⟩ := choices_of_not_passedBy he
    rw [hchoices, hchoices, choices_of_passedBy (h.append [e])]

theorem rel_choices_refl (cs : List (Component × Coordinate)) (present ds : List Coordinate) :
    Multiset.Rel Choice.Alike (choices cs present ds : Multiset Choice)
      (choices cs present ds : Multiset Choice) :=
  Multiset.rel_refl_of_refl_on fun c _ => .refl c

/-- **Neighbours may change places.** Copies are made for both of them, for one of them or for none;
where they match it is the first that is copied, and otherwise each is copied whatever came before. -/
theorem rel_choices_swap (cs : List (Component × Coordinate)) (present : List Coordinate)
    (d e : Coordinate) (ds : List Coordinate) :
    Multiset.Rel Choice.Alike (choices cs present (d :: e :: ds) : Multiset Choice)
      (choices cs present (e :: d :: ds) : Multiset Choice) := by
  by_cases hd : PassedBy cs present d
  · rw [choices_swap_of_passedBy hd]
    exact rel_choices_refl cs present (e :: d :: ds)
  by_cases he : PassedBy cs present e
  · rw [choices_swap_of_passedBy he]
    exact rel_choices_refl cs present (d :: e :: ds)
  obtain ⟨source, score, hbest, hchoices⟩ := choices_of_not_passedBy hd
  obtain ⟨source', score', hbest', hchoices'⟩ := choices_of_not_passedBy he
  rw [hchoices, hchoices']
  by_cases hmatch : MatchesExactly d e
  · -- the one that comes first is copied, and the other one is present then
    rw [choices_of_passedBy (passedBy_concat_iff.mpr (.inl hmatch)),
      choices_of_passedBy (passedBy_concat_iff.mpr (.inl hmatch.symm))]
    have hrest : choices cs (present ++ [d]) ds = choices cs (present ++ [e]) ds := by
      refine choices_congr (fun k => ?_) ds
      rw [passedBy_concat_iff, passedBy_concat_iff]
      exact or_congr ⟨hmatch.symm.trans, hmatch.trans⟩ Iff.rfl
    rw [bestCandidate_congr hmatch, hbest'] at hbest
    obtain ⟨rfl, rfl⟩ := Prod.mk.inj (Option.some.inj hbest)
    rw [hrest, ← Multiset.cons_coe, ← Multiset.cons_coe]
    exact .cons ⟨hmatch, rfl, rfl⟩ (rel_choices_refl cs _ ds)
  · -- neither makes the other one present
    have he' : ¬ PassedBy cs (present ++ [d]) e := by
      rw [passedBy_concat_iff]
      exact not_or.mpr ⟨hmatch, he⟩
    have hd' : ¬ PassedBy cs (present ++ [e]) d := by
      rw [passedBy_concat_iff]
      exact not_or.mpr ⟨fun h => hmatch h.symm, hd⟩
    obtain ⟨_, _, hbest'', hchoices''⟩ := choices_of_not_passedBy he'
    obtain ⟨rfl, rfl⟩ := Prod.mk.inj (Option.some.inj (hbest'.symm.trans hbest''))
    obtain ⟨_, _, hbest''', hchoices'''⟩ := choices_of_not_passedBy hd'
    obtain ⟨rfl, rfl⟩ := Prod.mk.inj (Option.some.inj (hbest.symm.trans hbest'''))
    have hrest : choices cs (present ++ [d] ++ [e]) ds = choices cs (present ++ [e] ++ [d]) ds := by
      refine choices_congr (fun k => ?_) ds
      simp only [passedBy_concat_iff]
      exact or_left_comm
    rw [hchoices'', hchoices''', hrest]
    simp only [← Multiset.cons_coe]
    rw [Multiset.cons_swap]
    exact Multiset.rel_refl_of_refl_on fun c _ => .refl c

/-- **Any order leads to the same copies, but for the spelling.** -/
theorem rel_choices (h : ds.Perm es) (cs : List (Component × Coordinate))
    (present : List Coordinate) :
    Multiset.Rel Choice.Alike (choices cs present ds : Multiset Choice)
      (choices cs present es : Multiset Choice) := by
  induction h generalizing present with
  | nil => exact rel_choices_refl cs present []
  | @cons d ds es _ ih =>
      by_cases hd : PassedBy cs present d
      · rw [choices_of_passedBy hd, choices_of_passedBy hd]
        exact ih present
      · obtain ⟨source, score, -, hchoices⟩ := choices_of_not_passedBy hd
        rw [hchoices, hchoices, ← Multiset.cons_coe, ← Multiset.cons_coe]
        exact .cons (.refl _) (ih (present ++ [d]))
  | swap d e ds => exact rel_choices_swap cs present e d ds
  | trans _ _ ih ih' => exact (ih present).trans _ (ih' present)

theorem sublist_choices (cs : List (Component × Coordinate)) (present ds : List Coordinate) :
    ((choices cs present ds).map Choice.declared).Sublist ds := by
  induction ds generalizing present with
  | nil => exact .slnil
  | cons d ds ih =>
      by_cases hd : PassedBy cs present d
      · rw [choices_of_passedBy hd]
        exact (ih present).cons d
      · obtain ⟨source, score, -, hchoices⟩ := choices_of_not_passedBy hd
        rw [hchoices, List.map_cons]
        exact (ih (present ++ [d])).cons_cons d

end Choices

/-! ## The results -/

section Reconcile

variable {m m' : Manifest} {b : Bom}

/-- These are the copies that reconciling makes, each for a declared coordinate, in their order. -/
structure Copies (m : Manifest) (b : Bom) (cs : List Choice) : Prop where
  declared : (cs.map Choice.declared).Sublist m.dependencies
  added : (reconcile m b).2.added = cs.map Choice.addition
  components : (reconcile m b).1.components = b.components ++ cs.map Choice.clone

theorem copies_of_eq (h : m.size = b.components.length) : Copies m b [] := by
  have hrun := reconcile_of_eq h
  refine ⟨List.nil_sublist _, ?_, ?_⟩
  · rw [hrun]
    rfl
  · rw [hrun]
    exact (List.append_nil _).symm

theorem copies_of_ne (h : m.size ≠ b.components.length) : Copies m b (chosen m b) := by
  have hrun := reconcile_of_ne h
  refine ⟨sublist_choices _ _ _, ?_, ?_⟩
  · rw [hrun]
    exact (run_made m b).added
  · rw [hrun]
    exact components_run m b

/-- What is appended to the components. -/
def appended (b out : Bom) : List Component := out.components.drop b.components.length

theorem Copies.appended_eq {cs : List Choice} (h : Copies m b cs) :
    appended b (reconcile m b).1 = cs.map Choice.clone := by
  unfold appended
  rw [h.components]
  exact List.drop_left

/-- What two orders of the same declarations agree on. -/
structure OrderFree (m m' : Manifest) (b : Bom) : Prop where
  fastPath : (reconcile m' b).2.fastPath = (reconcile m b).2.fastPath
  matched : (reconcile m' b).2.matched = (reconcile m b).2.matched
  added : (reconcile m' b).2.added.length = (reconcile m b).2.added.length
  skipped : (reconcile m' b).2.skipped.Perm (reconcile m b).2.skipped
  /-- The copies are paired off one to one. -/
  paired : ∃ cs cs' : List Choice, Copies m b cs ∧ Copies m' b cs' ∧
    Multiset.Rel Choice.Alike (cs' : Multiset Choice) (cs : Multiset Choice)
  /-- Without a second spelling, what is reported and what is appended is the same. -/
  same : m.WrittenOneWay → (reconcile m' b).2.added.Perm (reconcile m b).2.added ∧
    (appended b (reconcile m' b).1).Perm (appended b (reconcile m b).1)

variable (h : m'.dependencies.Perm m.dependencies)

include h

theorem exists_paired (b : Bom) : ∃ cs cs' : List Choice, Copies m b cs ∧ Copies m' b cs' ∧
    Multiset.Rel Choice.Alike (cs' : Multiset Choice) (cs : Multiset Choice) := by
  have hsize : m'.size = m.size := h.length_eq
  by_cases hcount : m.size = b.components.length
  · exact ⟨[], [], copies_of_eq hcount, copies_of_eq (hsize.trans hcount), .zero⟩
  · have hcount' : m'.size ≠ b.components.length := hsize ▸ hcount
    exact ⟨_, _, copies_of_ne hcount, copies_of_ne hcount', rel_choices h _ _⟩

theorem skipped_perm (b : Bom) :
    (reconcile m' b).2.skipped.Perm (reconcile m b).2.skipped := by
  have hsize : m'.size = m.size := h.length_eq
  by_cases hcount : m.size = b.components.length
  · rw [reconcile_of_eq hcount, reconcile_of_eq (hsize.trans hcount)]
  · rw [reconcile_of_ne hcount, reconcile_of_ne (hsize ▸ hcount)]
    show (run m' b).skipped.Perm (run m b).skipped
    rw [run_skipped, run_skipped]
    exact (h.filter _).map _

theorem matched_eq (hadded : (reconcile m' b).2.added.length = (reconcile m b).2.added.length) :
    (reconcile m' b).2.matched = (reconcile m b).2.matched := by
  have hsize : m'.size = m.size := h.length_eq
  by_cases hcount : m.size = b.components.length
  · rw [reconcile_of_eq hcount, reconcile_of_eq (hsize.trans hcount)]
  · -- every declared coordinate is counted once
    have hcount' : m'.size ≠ b.components.length := hsize ▸ hcount
    have hdeclared := (addsUp_of_ne hcount).declared
    have hdeclared' := (addsUp_of_ne hcount').declared
    have hskipped := (skipped_perm h b).length_eq
    omega

/-- Copies that are alike are the same where coordinates are written one way. -/
theorem same_of_paired {cs cs' : List Choice} (hcs : Copies m b cs) (hcs' : Copies m' b cs')
    (hrel : Multiset.Rel Choice.Alike (cs' : Multiset Choice) (cs : Multiset Choice))
    (hm : m.WrittenOneWay) : (reconcile m' b).2.added.Perm (reconcile m b).2.added ∧
      (appended b (reconcile m' b).1).Perm (appended b (reconcile m b).1) := by
  have hsame : ∀ c ∈ (cs' : Multiset Choice), ∀ e ∈ (cs : Multiset Choice), Choice.Alike c e →
      c.addition = e.addition ∧ c.clone = e.clone := by
    intro c hc e he halike
    have hdeclared := h.mem_iff.mp (hcs'.declared.subset (List.mem_map_of_mem hc))
    have hdeclared' := hcs.declared.subset (List.mem_map_of_mem he)
    exact halike.clone_eq (hm _ hdeclared _ hdeclared' halike.declared)
  have hmap : ∀ {α : Type} (f : Choice → α),
      (∀ c ∈ (cs' : Multiset Choice), ∀ e ∈ (cs : Multiset Choice), Choice.Alike c e → f c = f e) →
      (cs'.map f).Perm (cs.map f) := by
    intro α f hf
    rw [← Multiset.coe_eq_coe, ← Multiset.map_coe, ← Multiset.map_coe, ← Multiset.rel_eq,
      Multiset.rel_map]
    exact hrel.mono hf
  rw [hcs.added, hcs'.added, hcs.appended_eq, hcs'.appended_eq]
  constructor
  · exact hmap _ fun c hc e he halike => (hsame c hc e he halike).1
  · exact hmap _ fun c hc e he halike => (hsame c hc e he halike).2

/-- **The order of declarations does not matter**, but for which spelling of a coordinate is taken; and
in a Maven project no coordinate has two. -/
theorem reconcile_perm (b : Bom) :
    OrderFree m m' b ∧ ∀ content, Manifest.parsePom content = .ok m → m.WrittenOneWay := by
  obtain ⟨cs, cs', hcs, hcs', hrel⟩ := exists_paired h b
  have hlength : cs'.length = cs.length := Multiset.card_eq_card_of_rel hrel
  have hadded : (reconcile m' b).2.added.length = (reconcile m b).2.added.length := by
    rw [hcs.added, hcs'.added, List.length_map, List.length_map, hlength]
  have hfast : (reconcile m' b).2.fastPath = (reconcile m b).2.fastPath := by
    have hsize : m'.size = m.size := h.length_eq
    unfold reconcile
    rw [hsize]
    split <;> rfl
  exact ⟨⟨hfast, matched_eq h hadded, hadded, skipped_perm h b, ⟨cs, cs', hcs, hcs', hrel⟩,
    same_of_paired h hcs hcs' hrel⟩, fun content => Manifest.writtenOneWay_of_parsePom⟩

omit h

/-- The artifact of `ownBom` in two spellings, and one that no component of it is of. -/
def twiceDeclared : List Coordinate := [
  ⟨"maven", some "g", "app", some "2", .empty, none⟩,
  ⟨"maven", some "g", "app", some "2", .ofList [("type", "jar")], none⟩,
  ⟨"maven", some "g", "other", some "1", .empty, none⟩]

theorem reconcile_perm_twiceDeclared :
    (Manifest.mk none twiceDeclared.reverse).dependencies.Perm
      (Manifest.mk none twiceDeclared).dependencies ∧
    OrderFree ⟨none, twiceDeclared⟩ ⟨none, twiceDeclared.reverse⟩ ownBom ∧
    ∀ content, Manifest.parsePom content = .ok ⟨none, twiceDeclared⟩ →
      (Manifest.mk none twiceDeclared).WrittenOneWay :=
  ⟨List.reverse_perm _, reconcile_perm (List.reverse_perm _) ownBom⟩

end Reconcile

end Reconcile

end BomAssembly
