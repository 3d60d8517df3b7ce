import BomAssembly.Proofs.Coordinate.Reading
import BomAssembly.Proofs.Text.LowerCase
import BomAssembly.Proofs.Text.MapLookup

/-!
# The form of coordinates that were read

Whatever a package URL says, the coordinate read from it is in canonical form: ecosystem and
qualifier keys are valid and in lower case, name and group are spelled as the ecosystem spells them,
and no part that is there is empty.

A coordinate that was put together from Maven parts need not be canonical. It is so as soon as its
group and its name are those of a canonical one; its version and its qualifiers may be any text.

A canonical group may still hold the segments `.` and `..`, when they were written as escapes. Those
are the groups that are not `DotFree`.
-/

namespace BomAssembly.Coordinate

open Text (StringMap pieces joined)

/-- The segments of the group; none when there is no group. -/
def groupSegments (c : Coordinate) : List (List Char) :=
  (c.group.map fun g => pieces '/' g.toList).getD []

/-- No segment of the group is `.` or `..`. -/
def DotFree (c : Coordinate) : Prop :=
  ∀ s ∈ c.groupSegments, s ≠ ['.'] ∧ s ≠ ['.', '.']

instance (c : Coordinate) : Decidable c.DotFree := by
  unfold DotFree
  infer_instance

theorem SameArtifact.dotFree_iff {a b : Coordinate} (h : SameArtifact a b) :
    a.DotFree ↔ b.DotFree := by
  rw [DotFree, DotFree, groupSegments, groupSegments, h.2.1]

/-- The form of coordinates that were read. -/
structure Canonical (c : Coordinate) : Prop where
  ecosystem_valid : validEcosystem c.ecosystem.toList = true
  ecosystem_lower : c.ecosystem.toList.map Char.toLower = c.ecosystem.toList
  group_segments : ∀ s ∈ c.groupSegments, s ≠ []
  group_spelling : ∀ g, c.group = some g → canonicalGroup c.ecosystem g.toList = g.toList
  name_ne : c.name.toList ≠ []
  name_spelling : canonicalName c.ecosystem c.name.toList = c.name.toList
  version_ne : ∀ v, c.version = some v → v.toList ≠ []
  /-- A key is valid, and in lower case. -/
  keys : ∀ q ∈ c.qualifiers.entries,
    validKey q.1.toList = true ∧ q.1.toList.map Char.toLower = q.1.toList
  values : ∀ q ∈ c.qualifiers.entries, q.2.toList ≠ []
  /-- Every segment of the subpath names something. -/
  subpath_segments : ∀ s, c.subpath = some s → ∀ p ∈ pieces '/' s.toList, namesChild p = true

/-! ## Spelling -/

theorem toLower_of_not_ascii {c : Char} (h : ¬ c.toNat < 0x80) : c.toLower = c := by
  unfold Char.toLower
  refine dif_neg fun hc => h ?_
  exact Nat.lt_of_le_of_lt (UInt32.le_iff_toNat_le.mp hc.2) (by decide)

/-- Lower case of ASCII letters is settled after one pass, and keeps what makes a character fit for
the names of ecosystems and keys. -/
theorem toLower_keeps (c : Char) : c.toLower.toLower = c.toLower ∧
    c.toLower.isAlphanum = c.isAlphanum ∧ c.toLower.isDigit = c.isDigit ∧
    ∀ m ∈ ['.', '+', '-', '_'], (c.toLower == m) = (c == m) := by
  -- only ASCII letters are lowered, and of those the table decides
  rw [← List.map_inj_left]
  have key : ∀ n : Fin 0x80, (Char.ofNat n).toLower.toLower = (Char.ofNat n).toLower ∧
      (Char.ofNat n).toLower.isAlphanum = (Char.ofNat n).isAlphanum ∧
      (Char.ofNat n).toLower.isDigit = (Char.ofNat n).isDigit ∧
      ['.', '+', '-', '_'].map (fun m => (Char.ofNat n).toLower == m) =
        ['.', '+', '-', '_'].map (fun m => Char.ofNat n == m) := by
    decide
  by_cases h : c.toNat < 0x80
  · have hc := key ⟨c.toNat, h⟩
    rwa [Char.ofNat_toNat] at hc
  · rw [toLower_of_not_ascii h]
    exact ⟨toLower_of_not_ascii h, rfl, rfl, rfl⟩

theorem map_toLower_toLower (cs : List Char) :
    (cs.map Char.toLower).map Char.toLower = cs.map Char.toLower := by
  rw [List.map_map]
  exact List.map_congr_left fun c _ => (toLower_keeps c).1

theorem all_map_toLower {fits : Char → Bool} (h : ∀ c, fits c.toLower = fits c)
    (cs : List Char) : (cs.map Char.toLower).all fits = cs.all fits := by
  rw [List.all_map]
  exact congrArg cs.all (funext h)

theorem validEcosystem_map_toLower (cs : List Char) :
    validEcosystem (cs.map Char.toLower) = validEcosystem cs := by
  cases cs with
  | nil => rfl
  | cons c cs =>
      show (!c.toLower.isDigit && ((c :: cs).map Char.toLower).all _) = (!c.isDigit && _)
      rw [(toLower_keeps c).2.2.1, all_map_toLower]
      intro d
      obtain ⟨-, halnum, -, hmarks⟩ := toLower_keeps d
      simp [halnum, hmarks]

theorem validKey_map_toLower (cs : List Char) :
    validKey (cs.map Char.toLower) = validKey cs := by
  cases cs with
  | nil => rfl
  | cons c cs =>
      show (!c.toLower.isDigit && ((c :: cs).map Char.toLower).all _) = (!c.isDigit && _)
      rw [(toLower_keeps c).2.2.1, all_map_toLower]
      intro d
      obtain ⟨-, halnum, -, hmarks⟩ := toLower_keeps d
      simp [halnum, hmarks]

theorem canonicalName_canonicalName (e : String) (n : List Char) :
    canonicalName e (canonicalName e n) = canonicalName e n := by
  by_cases h1 : e = "bitbucket" ∨ e = "github"
  · simp only [canonicalName, if_pos h1, Text.lowercase_lowercase]
  · by_cases h2 : e = "pypi"
    · simp only [canonicalName, if_neg h1, if_pos h2]
      -- no underscore is left, so the second replacement finds nothing
      have hsame : ∀ c ∈ Text.lowercase (n.map fun c => if c = '_' then '-' else c),
          (if c = '_' then '-' else c) = id c := by
        intro c hc
        refine if_neg fun hu => ?_
        subst hu
        obtain ⟨d, -, hd⟩ := List.mem_map.mp (Text.mem_of_mem_lowercase hc (.inr rfl))
        split at hd
        · exact absurd hd (by decide)
        · next hne => exact hne hd
      rw [List.map_congr_left hsame, List.map_id, Text.lowercase_lowercase]
    · by_cases h3 : e ∈ ["deb", "hex", "npm"] ∧ n.any Text.isLowercase = true
      · simp only [canonicalName, if_neg h1, if_neg h2, if_pos h3, Text.lowercase_lowercase]
        split <;> rfl
      · simp only [canonicalName, if_neg h1, if_neg h2, if_neg h3]

theorem canonicalName_ne_nil {e : String} {n : List Char} (h : n ≠ []) :
    canonicalName e n ≠ [] := by
  unfold canonicalName
  split
  · exact Text.lowercase_ne_nil h
  · split
    · exact Text.lowercase_ne_nil (by simpa using h)
    · split
      · exact Text.lowercase_ne_nil h
      · exact h

theorem canonicalGroup_canonicalGroup (e : String) (g : List Char) :
    canonicalGroup e (canonicalGroup e g) = canonicalGroup e g := by
  unfold canonicalGroup
  split
  · exact Text.lowercase_lowercase g
  · rfl

theorem canonicalGroup_nil (e : String) : canonicalGroup e [] = [] := by
  unfold canonicalGroup
  split <;> rfl

/-- No segment of a group becomes empty by its spelling. -/
theorem pieces_canonicalGroup_ne_nil {e : String} {g : List Char}
    (h : ∀ p ∈ pieces '/' g, p ≠ []) : ∀ p ∈ pieces '/' (canonicalGroup e g), p ≠ [] := by
  unfold canonicalGroup
  split
  · intro p hp hnil
    have hempty : true ∈ (pieces '/' (Text.lowercase g)).map List.isEmpty :=
      List.mem_map.mpr ⟨p, hp, by rw [hnil]; rfl⟩
    rw [Text.isEmpty_pieces_lowercase] at hempty
    obtain ⟨q, hq, hq'⟩ := List.mem_map.mp hempty
    exact h q hq (List.isEmpty_iff.mp hq')
  · exact h

/-! ## Parts that were read -/

theorem nonEmpty_eq_some_iff {cs : List Char} {s : String} :
    nonEmpty cs = some s ↔ cs ≠ [] ∧ s.toList = cs := by
  unfold nonEmpty
  split
  · next h => simp [h]
  · next h =>
    rw [Option.some.injEq]
    constructor
    · rintro rfl
      exact ⟨h, String.toList_ofList⟩
    · rintro ⟨-, rfl⟩
      exact String.ofList_toList

theorem namesChild_ne_nil {cs : List Char} (h : namesChild cs = true) : cs ≠ [] := by
  intro hnil
  subst hnil
  exact absurd h (by decide)

/-- Every segment that was read passed the check and holds something. -/
theorem of_mem_segments {cs : List Char} {valid : List Char → Bool} {bad : String → Malformed}
    {parts : List (List Char)} (h : segments cs valid bad = .ok parts) :
    ∀ p ∈ parts, valid p = true ∧ p ≠ [] := by
  intro p hp
  obtain ⟨s, hs, hsp⟩ := exists_of_mem_mapM h p hp
  obtain ⟨t, ht, hsp⟩ := bind_eq_ok.mp hsp
  split at hsp
  · next hvalid =>
    rw [← Except.ok.inj hsp]
    exact ⟨hvalid, Text.Percent.ne_nil_of_decode? (decoded_eq_ok_iff.mp ht)
      (namesChild_ne_nil (List.mem_filter.mp hs).2)⟩
  · exact absurd hsp (by simp)

theorem of_mem_pieces_readGroup {cs g : List Char} (h : readGroup cs = .ok g) (hne : g ≠ []) :
    ∀ p ∈ pieces '/' g, p ≠ [] := by
  obtain ⟨parts, hparts, hg⟩ := bind_eq_ok.mp h
  have hall := of_mem_segments hparts
  have hg' := Except.ok.inj hg
  subst hg'
  have hcut : pieces '/' (joined ['/'] parts) = parts := by
    refine Text.pieces_joined (fun hnil => hne (by rw [hnil]; rfl)) fun p hp hm => ?_
    -- a segment that holds a slash was not let through
    have hvalid := (hall p hp).1
    rw [List.contains_eq_mem, decide_eq_true hm] at hvalid
    exact absurd hvalid (by decide)
  rw [hcut]
  exact fun p hp => (hall p hp).2

theorem of_mem_pieces_readSubpath {cs s : List Char} (h : readSubpath cs = .ok s) (hne : s ≠ []) :
    ∀ p ∈ pieces '/' s, namesChild p = true := by
  obtain ⟨parts, hparts, hs⟩ := bind_eq_ok.mp h
  have hall : ∀ p ∈ parts, namesChild p = true ∧ '/' ∉ p := by
    intro p hp
    simpa using (of_mem_segments hparts p hp).1
  have hs' := Except.ok.inj hs
  subst hs'
  rw [Text.pieces_joined (fun hnil => hne (by rw [hnil]; rfl)) (fun p hp => (hall p hp).2)]
  exact fun p hp => (hall p hp).1

/-- A qualifier that was read has a value. -/
theorem value_ne_nil_of_readQualifiers {cs : List Char} {qs : List (List Char × List Char)}
    (h : readQualifiers cs = .ok qs) : ∀ q ∈ qs, q.2 ≠ [] := by
  intro q hq
  obtain ⟨⟨key, value⟩, hw, hread⟩ := exists_of_mem_mapM h q hq
  obtain ⟨t, ht, hread⟩ := bind_eq_ok.mp hread
  have hq' := (Except.ok.inj hread).symm
  subst hq'
  refine Text.Percent.ne_nil_of_decode? (decoded_eq_ok_iff.mp ht) fun hnil => ?_
  obtain ⟨pair, -, hpair⟩ := List.mem_filterMap.mp hw
  split at hpair
  · exact absurd hpair (by simp)
  · next hvalue _ =>
    obtain ⟨rfl, rfl⟩ := Prod.mk.inj (Option.some.inj hpair)
    exact hvalue hnil
  · exact absurd hpair (by simp)

/-- What every binding of qualifiers is made of. -/
theorem of_mem_bindQualifiers {qs : List (List Char × List Char)} {m : StringMap String}
    (h : bindQualifiers qs = .ok m) : ∀ e ∈ m.entries, ∃ q ∈ qs, validKey q.1 = true ∧
      e = (String.ofList (q.1.map Char.toLower), String.ofList q.2) := by
  refine foldlM_invariant (P := fun n : StringMap String => ∀ e ∈ n.entries, ∃ q ∈ qs,
    validKey q.1 = true ∧ e = (String.ofList (q.1.map Char.toLower), String.ofList q.2)) h ?_ ?_
  · exact fun e he => absurd he List.not_mem_nil
  · intro q hq n n' hn hstep e he
    split at hstep
    · next hvalid =>
      rw [← Except.ok.inj hstep, Text.StringMap.mem_insert_iff] at he
      rcases he with he | ⟨he, -⟩
      · exact ⟨q, hq, hvalid, he⟩
      · exact hn e he
    · exact absurd hstep (by simp)

/-! ## Coordinates that were read -/

/-- **What a package URL is read as is in canonical form.** -/
theorem canonical_of_readChars {cs : List Char} {c : Coordinate} (h : readChars cs = .ok c) :
    c.Canonical := by
  obtain ⟨p, hcut, hp⟩ := readChars_eq_ok_iff.mp h
  obtain ⟨g, hg, hgroup⟩ := hp.group
  obtain ⟨n, hn, hname⟩ := hp.name
  obtain ⟨v, -, hversion⟩ := hp.version
  obtain ⟨qs, hqs, hbind⟩ := hp.qualifiers
  obtain ⟨s, hs, -, hsub⟩ := hp.subpath
  constructor
  case ecosystem_valid =>
    rw [hp.ecosystem, String.toList_ofList, validEcosystem_map_toLower, hp.valid]
  case ecosystem_lower =>
    rw [hp.ecosystem, String.toList_ofList, map_toLower_toLower]
  case group_segments =>
    rw [groupSegments, hgroup]
    cases hsome : nonEmpty (canonicalGroup c.ecosystem g) with
    | none => exact fun q hq => absurd hq List.not_mem_nil
    | some t =>
        obtain ⟨hne, ht⟩ := nonEmpty_eq_some_iff.mp hsome
        show ∀ q ∈ pieces '/' t.toList, q ≠ []
        rw [ht]
        refine pieces_canonicalGroup_ne_nil (of_mem_pieces_readGroup hg fun hnil => hne ?_)
        rw [hnil, canonicalGroup_nil]
  case group_spelling =>
    intro t ht
    rw [hgroup, nonEmpty_eq_some_iff] at ht
    rw [ht.2, canonicalGroup_canonicalGroup]
  case name_ne =>
    rw [hname, String.toList_ofList]
    exact canonicalName_ne_nil
      (Text.Percent.ne_nil_of_decode? (decoded_eq_ok_iff.mp hn) hcut.last_ne_nil)
  case name_spelling =>
    rw [hname, String.toList_ofList, canonicalName_canonicalName]
  case version_ne =>
    intro t ht
    rw [hversion] at ht
    obtain ⟨u, -, hu⟩ := Option.bind_eq_some_iff.mp ht
    obtain ⟨hne, hu⟩ := nonEmpty_eq_some_iff.mp hu
    exact hu ▸ hne
  case keys =>
    intro q hq
    obtain ⟨r, -, hvalid, rfl⟩ := of_mem_bindQualifiers hbind q hq
    simp only [String.toList_ofList]
    exact ⟨by rw [validKey_map_toLower, hvalid], map_toLower_toLower _⟩
  case values =>
    intro q hq
    obtain ⟨r, hr, -, rfl⟩ := of_mem_bindQualifiers hbind q hq
    simp only [String.toList_ofList]
    exact value_ne_nil_of_readQualifiers hqs r hr
  case subpath_segments =>
    intro t ht
    rw [hsub] at ht
    obtain ⟨u, hu, hut⟩ := Option.bind_eq_some_iff.mp ht
    obtain ⟨hne, hut⟩ := nonEmpty_eq_some_iff.mp hut
    rw [hut]
    subst hu
    cases hpath : p.path with
    | none => rw [hpath] at hs; exact absurd (Except.ok.inj hs) (by simp)
    | some r =>
        rw [hpath] at hs
        obtain ⟨w, hw, hwu⟩ := bind_eq_ok.mp hs
        rw [Option.some.inj (Except.ok.inj hwu)] at hw
        exact of_mem_pieces_readSubpath hw hne

theorem canonical_of_parse {s : String} {c : Coordinate} (h : parse s = .ok c) : c.Canonical :=
  canonical_of_readChars h

/-! ## Coordinates that were put together -/

/-- The qualifiers of a coordinate that was put together: its packaging and its classifier, neither of
them empty. -/
theorem of_mem_maven_qualifiers {group artifact : String}
    {version packaging classifier : Option String} {q : String × String}
    (h : q ∈ (maven group artifact version packaging classifier).qualifiers.entries) :
    (q.1 = "type" ∧ q.2 ≠ "") ∨ (q.1 = "classifier" ∧ q.2 ≠ "") := by
  have hpackaging : (packaging.filter (· ≠ "")).getD defaultPackaging ≠ "" := by
    cases hp : packaging.filter (· ≠ "") with
    | none => decide
    | some p => simpa using (Option.filter_eq_some_iff.mp hp).2
  have htype : ∀ e ∈ (StringMap.empty.insert "type"
      ((packaging.filter (· ≠ "")).getD defaultPackaging)).entries, e.1 = "type" ∧ e.2 ≠ "" := by
    intro e he
    rcases Text.StringMap.mem_insert_iff.mp he with he | ⟨he, -⟩
    · rw [he]
      exact ⟨rfl, hpackaging⟩
    · exact absurd he List.not_mem_nil
  unfold maven at h
  dsimp only at h
  split at h
  · next c hc =>
    rcases Text.StringMap.mem_insert_iff.mp h with h | ⟨h, -⟩
    · rw [h]
      exact .inr ⟨rfl, by simpa using (Option.filter_eq_some_iff.mp hc).2⟩
    · exact .inl (htype q h)
  · exact .inl (htype q h)

/-- **Maven parts make a canonical coordinate when group and name are those of a canonical one.** -/
theorem canonical_maven {group artifact : String} {version packaging classifier : Option String}
    {k : Coordinate} (hk : k.Canonical) (heco : "maven" = k.ecosystem)
    (hgroup : some group = k.group) (hname : artifact = k.name) :
    (maven group artifact version packaging classifier).Canonical := by
  have hecosystem : (maven group artifact version packaging classifier).ecosystem = k.ecosystem :=
    heco
  have hsegments :
      (maven group artifact version packaging classifier).groupSegments = k.groupSegments := by
    rw [groupSegments, groupSegments, ← hgroup]
    rfl
  constructor
  case ecosystem_valid =>
    rw [hecosystem]
    exact hk.ecosystem_valid
  case ecosystem_lower =>
    rw [hecosystem]
    exact hk.ecosystem_lower
  case group_segments =>
    rw [hsegments]
    exact hk.group_segments
  case group_spelling =>
    intro g hg
    rw [hecosystem]
    exact hk.group_spelling g (hgroup ▸ hg)
  case name_ne => exact hname ▸ hk.name_ne
  case name_spelling =>
    rw [hecosystem]
    exact hname ▸ hk.name_spelling
  case version_ne =>
    intro v hv hnil
    obtain ⟨-, hne⟩ := Option.filter_eq_some_iff.mp hv
    exact absurd (String.toList_eq_nil_iff.mp hnil) (by simpa using hne)
  case keys =>
    intro q hq
    rcases of_mem_maven_qualifiers hq with ⟨h, -⟩ | ⟨h, -⟩ <;> rw [h] <;> decide
  case values =>
    intro q hq
    rcases of_mem_maven_qualifiers hq with ⟨-, h⟩ | ⟨-, h⟩ <;>
      exact fun hnil => h (String.toList_eq_nil_iff.mp hnil)
  case subpath_segments =>
    intro s hs
    exact absurd hs (by simp [maven])

end BomAssembly.Coordinate
