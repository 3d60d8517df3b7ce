import BomAssembly.Coordinate.Printer
import BomAssembly.Proofs.Coordinate.Canonical

/-!
# Reading back the text of a coordinate

The text of a canonical coordinate is a package URL, and what is read from it is known exactly: the
coordinate itself, without the segments `.` and `..` of its group (`parse_render`). The text writes
these segments as they are, and reading drops them.

So a canonical coordinate comes back as it was exactly when its group is free of such segments
(`parse_render_eq_self_iff`), and what comes back never holds one.
-/

namespace BomAssembly.Coordinate

open Text (StringMap pieces joined cutFirst cutLast)
open Text.Percent (encode decode?)

/-- The coordinate without the segments of its group that name nothing. -/
def undotted (c : Coordinate) : Coordinate :=
  { c with group := c.group.bind fun g =>
      nonEmpty (joined ['/'] ((pieces '/' g.toList).filter namesChild)) }

/-! ## Parts behind separators -/

/-- A part that may be missing, behind its separator. -/
def behind (sep : Char) : Option (List Char) → List Char
  | some b => sep :: b
  | none => []

theorem cutTail_behind {sep : Char} {a : List Char} {o : Option (List Char)} (ha : sep ∉ a)
    (ho : ∀ b, o = some b → sep ∉ b) : cutTail sep (a ++ behind sep o) = (a, o) := by
  unfold cutTail behind
  cases o with
  | none => rw [List.append_nil, Text.cutLast_of_not_mem ha]
  | some b => rw [Text.cutLast_append (ho b rfl)]

theorem mem_behind {sep x : Char} {o : Option (List Char)} (h : x ∈ behind sep o) :
    x = sep ∨ ∃ b, o = some b ∧ x ∈ b := by
  cases o with
  | none => exact absurd h List.not_mem_nil
  | some b =>
      rcases List.mem_cons.mp h with h | h
      · exact .inl h
      · exact .inr ⟨b, rfl, h⟩

theorem dropEndSlashes_append {a b : List Char} (hne : b ≠ []) (h : '/' ∉ b) :
    dropEndSlashes (a ++ b) = a ++ b := by
  obtain ⟨x, xs, hx⟩ := List.exists_cons_of_ne_nil (List.reverse_ne_nil_iff.mpr hne)
  have hslash : (x == '/') = false := by
    rw [beq_eq_false_iff_ne]
    rintro rfl
    exact h (List.mem_reverse.mp (hx ▸ List.mem_cons_self))
  have hdrop : (b.reverse ++ a.reverse).dropWhile (· == '/') = b.reverse ++ a.reverse := by
    rw [hx, List.cons_append, List.dropWhile_cons, hslash]
    rfl
  rw [dropEndSlashes, List.reverse_append, hdrop, List.reverse_append, List.reverse_reverse,
    List.reverse_reverse]

/-! ## The parts of a text -/

/-- The group as it is written. -/
def groupText (c : Coordinate) : List Char := joined ['/'] (c.groupSegments.map (encode keepNone))

/-- The raw parts that the text of a coordinate is made of. -/
def textParts (c : Coordinate) : Parts where
  kind := c.ecosystem.toList
  front := c.groupText
  last := encode keepNone c.name.toList
  release := c.version.map fun v => encode keepNone v.toList
  pairs := match c.qualifiers.entries with
    | [] => none
    | qs => some (joined ['&'] (qs.map renderQualifier))
  path := c.subpath.map fun s => encode keepSlash s.toList

/-- Group and name as they are written. -/
def nameText (c : Coordinate) : List Char :=
  match c.group with
  | some _ => c.groupText ++ '/' :: c.textParts.last
  | none => c.textParts.last

theorem behind_release (c : Coordinate) : behind '@' c.textParts.release =
    match c.version with
    | some v => '@' :: encode keepNone v.toList
    | none => [] := by
  unfold textParts behind
  cases c.version <;> rfl

theorem behind_pairs (c : Coordinate) : behind '?' c.textParts.pairs =
    match c.qualifiers.entries with
    | [] => []
    | qs => '?' :: joined ['&'] (qs.map renderQualifier) := by
  unfold textParts behind
  cases c.qualifiers.entries <;> rfl

theorem behind_path (c : Coordinate) : behind '#' c.textParts.path =
    match c.subpath with
    | some s => '#' :: encode keepSlash s.toList
    | none => [] := by
  unfold textParts behind
  cases c.subpath <;> rfl

theorem nameText_eq (c : Coordinate) : c.nameText =
    (match c.group with
      | some g => joined ['/'] ((pieces '/' g.toList).map (encode keepNone)) ++ ['/']
      | none => []) ++ encode keepNone c.name.toList := by
  unfold nameText groupText groupSegments
  cases c.group with
  | none => rfl
  | some g => exact List.append_cons _ _ _

theorem renderChars_eq (c : Coordinate) : c.renderChars = "pkg".toList ++ ':' ::
    (c.textParts.kind ++ '/' :: c.nameText ++ behind '@' c.textParts.release ++
      behind '?' c.textParts.pairs ++ behind '#' c.textParts.path) := by
  rw [behind_release, behind_pairs, behind_path, nameText_eq]
  have hscheme : "pkg:".toList = "pkg".toList ++ [':'] := by decide
  unfold renderChars
  rw [hscheme]
  simp only [List.append_assoc, List.cons_append, List.nil_append]
  rfl

/-! ## What the parts do not hold -/

/-- A character that stands in a text only to part it. -/
structure Parting (x : Char) : Prop where
  not_plain : Text.Percent.isPlain x = false
  ne_percent : x ≠ '%'
  ne_plus : x ≠ '+'

theorem Parting.not_mem_encode {x : Char} (hx : Parting x) {keep : Char → Bool}
    (hk : keep x = false) (cs : List Char) : x ∉ encode keep cs :=
  Text.Percent.not_mem_encode hx.ne_percent hx.not_plain hk

theorem Parting.not_mem_ecosystem {x : Char} (hx : Parting x) {kind : List Char}
    (h : validEcosystem kind = true) : x ∉ kind := by
  cases kind with
  | nil => exact List.not_mem_nil
  | cons c cs =>
      intro hm
      have hfit := List.all_eq_true.mp (Bool.and_eq_true_iff.mp h).2 x hm
      have hplain := hx.not_plain
      simp only [Text.Percent.isPlain, Bool.or_eq_false_iff] at hplain
      simp [hplain, hx.ne_plus] at hfit

theorem Parting.not_mem_key {x : Char} (hx : Parting x) {key : List Char}
    (h : validKey key = true) : x ∉ key := by
  cases key with
  | nil => exact List.not_mem_nil
  | cons c cs =>
      intro hm
      have hfit := List.all_eq_true.mp (Bool.and_eq_true_iff.mp h).2 x hm
      have hplain := hx.not_plain
      simp only [Text.Percent.isPlain, Bool.or_eq_false_iff] at hplain
      simp [hplain] at hfit

theorem Parting.not_mem_groupText {x : Char} (hx : Parting x) (hslash : x ≠ '/')
    (c : Coordinate) : x ∉ c.groupText := by
  intro hm
  rcases Text.mem_of_mem_joined hm with hm | ⟨s, hs, hm⟩
  · exact hslash (List.mem_singleton.mp hm)
  · obtain ⟨t, -, rfl⟩ := List.mem_map.mp hs
    exact hx.not_mem_encode rfl t hm

theorem Parting.not_mem_nameText {x : Char} (hx : Parting x) (hslash : x ≠ '/')
    (c : Coordinate) : x ∉ c.nameText := by
  unfold nameText
  split
  · rw [List.mem_append, List.mem_cons]
    rintro (hm | hm | hm)
    · exact hx.not_mem_groupText hslash c hm
    · exact hslash hm
    · exact hx.not_mem_encode rfl _ hm
  · exact hx.not_mem_encode rfl _

theorem Parting.not_mem_qualifier {x : Char} (hx : Parting x) (hkeep : keepSlashColon x = false)
    (heq : x ≠ '=') {q : String × String} (h : validKey q.1.toList = true) :
    x ∉ renderQualifier q := by
  rw [renderQualifier, List.mem_append, List.mem_append, List.mem_singleton]
  rintro ((hm | hm) | hm)
  · exact hx.not_mem_key h hm
  · exact heq hm
  · exact hx.not_mem_encode hkeep _ hm

theorem Parting.not_mem_pairs {x : Char} (hx : Parting x) (hkeep : keepSlashColon x = false)
    (heq : x ≠ '=') (hamp : x ≠ '&') {c : Coordinate} (hc : c.Canonical) {b : List Char}
    (h : c.textParts.pairs = some b) : x ∉ b := by
  unfold textParts at h
  dsimp only at h
  split at h
  · exact absurd h (by simp)
  · intro hm
    rw [← Option.some.inj h] at hm
    rcases Text.mem_of_mem_joined hm with hm | ⟨s, hs, hm⟩
    · exact hamp (List.mem_singleton.mp hm)
    · obtain ⟨q, hq, rfl⟩ := List.mem_map.mp hs
      exact hx.not_mem_qualifier hkeep heq (hc.keys q hq).1 hm

theorem parting_hash : Parting '#' := ⟨by decide, by decide, by decide⟩

theorem parting_question : Parting '?' := ⟨by decide, by decide, by decide⟩

theorem parting_at : Parting '@' := ⟨by decide, by decide, by decide⟩

theorem parting_slash : Parting '/' := ⟨by decide, by decide, by decide⟩

theorem parting_amp : Parting '&' := ⟨by decide, by decide, by decide⟩

theorem parting_eq : Parting '=' := ⟨by decide, by decide, by decide⟩

/-! ## Cutting the text -/

theorem ofText_renderChars {c : Coordinate} (h : c.Canonical) : c.textParts.OfText c.renderChars := by
  have hscheme : ':' ∉ "pkg".toList := by decide
  have hlast : c.textParts.last ≠ [] := by
    simpa [textParts] using h.name_ne
  have hslash : '/' ∉ c.textParts.last := parting_slash.not_mem_encode rfl _
  have hname : ∀ x, Parting x → x ≠ '/' → x ∉ c.textParts.kind ++ '/' :: c.nameText := by
    intro x hx hne
    rw [List.mem_append, List.mem_cons]
    rintro (hm | hm | hm)
    · exact hx.not_mem_ecosystem h.ecosystem_valid hm
    · exact hne hm
    · exact hx.not_mem_nameText hne c hm
  have hrelease : ∀ x, Parting x → x ≠ '@' → x ∉ behind '@' c.textParts.release := by
    intro x hx hne hm
    rcases mem_behind hm with hm | ⟨b, hb, hm⟩
    · exact hne hm
    · obtain ⟨v, -, rfl⟩ := Option.map_eq_some_iff.mp hb
      exact hx.not_mem_encode rfl _ hm
  have hpairs : '#' ∉ behind '?' c.textParts.pairs := by
    intro hm
    rcases mem_behind hm with hm | ⟨b, hb, hm⟩
    · exact absurd hm (by decide)
    · exact parting_hash.not_mem_pairs (by decide) (by decide) (by decide) h hb hm
  refine ⟨_, _, _, _, c.nameText, by rw [renderChars_eq, Text.cutFirst_append hscheme],
    cutTail_behind ?_ ?_, cutTail_behind ?_ ?_, cutTail_behind ?_ ?_, ?_, ?_, ?_⟩
  -- the text is cut at the last '#', then at the last '?', then at the last '@'
  · rw [List.mem_append, List.mem_append]
    rintro ((hm | hm) | hm)
    · exact hname '#' parting_hash (by decide) hm
    · exact hrelease '#' parting_hash (by decide) hm
    · exact hpairs hm
  · intro b hb
    obtain ⟨t, -, rfl⟩ := Option.map_eq_some_iff.mp hb
    exact parting_hash.not_mem_encode (by decide) _
  · rw [List.mem_append]
    rintro (hm | hm)
    · exact hname '?' parting_question (by decide) hm
    · exact hrelease '?' parting_question (by decide) hm
  · exact fun b hb =>
      parting_question.not_mem_pairs (by decide) (by decide) (by decide) h hb
  · exact hname '@' parting_at (by decide)
  · intro b hb
    obtain ⟨v, -, rfl⟩ := Option.map_eq_some_iff.mp hb
    exact parting_at.not_mem_encode rfl _
  -- what is left is the ecosystem, the group if there is one, and the name
  · have hkind : '/' ∉ c.textParts.kind := parting_slash.not_mem_ecosystem h.ecosystem_valid
    have hdrop : (c.textParts.kind ++ '/' :: c.nameText).dropWhile (· == '/') =
        c.textParts.kind ++ '/' :: c.nameText := by
      cases hk : c.textParts.kind with
      | nil => exact absurd h.ecosystem_valid (by rw [show c.ecosystem.toList = [] from hk]; decide)
      | cons x xs =>
          have hx : (x == '/') = false := by
            rw [beq_eq_false_iff_ne]
            exact fun hx => hkind (hk ▸ hx ▸ List.mem_cons_self)
          rw [List.cons_append, List.dropWhile_cons, hx]
          rfl
    rw [hdrop, Text.cutFirst_append hkind]
  · unfold nameText
    split
    · rw [List.append_cons, dropEndSlashes_append hlast hslash]
      simp
    · rw [← List.nil_append c.textParts.last, dropEndSlashes_append hlast hslash]
      exact hlast
  · unfold nameText
    split
    · rw [List.append_cons, dropEndSlashes_append hlast hslash, ← List.append_cons,
        Text.cutLast_append hslash]
      rfl
    · next hnone =>
      rw [← List.nil_append c.textParts.last, dropEndSlashes_append hlast hslash,
        List.nil_append, Text.cutLast_of_not_mem hslash]
      simp [textParts, groupText, groupSegments, hnone, joined]

/-! ## Reading the parts -/

theorem decoded_encode {keep : Char → Bool} (hk : keep '%' = false) (cs : List Char) :
    decoded (encode keep cs) = .ok cs :=
  decoded_eq_ok_iff.mpr (Text.Percent.decode?_encode hk cs)

theorem encode_eq_iff_of_plain {keep : Char → Bool} (hk : keep '%' = false) {cs dots : List Char}
    (hdots : encode keep dots = dots) : encode keep cs = dots ↔ cs = dots := by
  constructor
  · exact fun h => Text.Percent.encode_injective hk (h.trans hdots.symm)
  · exact fun h => h ▸ hdots

/-- Encoding neither hides nor makes a segment that names nothing. -/
theorem namesChild_encode {keep : Char → Bool} (hk : keep '%' = false) (cs : List Char) :
    namesChild (encode keep cs) = namesChild cs := by
  have hdot : encode keep ['.'] = ['.'] := rfl
  have hdots : encode keep ['.', '.'] = ['.', '.'] := rfl
  simp only [namesChild, ne_eq, encode_eq_iff_of_plain hk hdot, encode_eq_iff_of_plain hk hdots,
    Text.Percent.encode_eq_nil_iff]

/-- What is read from encoded segments: the segments that name something. -/
theorem segments_joined_encode {keep : Char → Bool} (hk : keep '%' = false)
    {ss : List (List Char)} (hne : ss ≠ []) (hcut : ∀ s ∈ ss, '/' ∉ encode keep s)
    {valid : List Char → Bool} {bad : String → Malformed}
    (hvalid : ∀ s ∈ ss, namesChild s = true → valid s = true) :
    segments (joined ['/'] (ss.map (encode keep))) valid bad = .ok (ss.filter namesChild) := by
  have hpieces : pieces '/' (joined ['/'] (ss.map (encode keep))) = ss.map (encode keep) := by
    refine Text.pieces_joined (by simpa using hne) fun p hp => ?_
    obtain ⟨s, hs, rfl⟩ := List.mem_map.mp hp
    exact hcut s hs
  have hnames : namesChild ∘ encode keep = namesChild := funext fun s => namesChild_encode hk s
  have hread : ∀ s ∈ (ss.filter namesChild).map (encode keep),
      (do let text ← decoded s
          if valid text then .ok text else .error (bad (String.ofList text))) =
        .ok ((decode? s).getD []) := by
    intro s hs
    obtain ⟨t, ht, rfl⟩ := List.mem_map.mp hs
    obtain ⟨ht, hchild⟩ := List.mem_filter.mp ht
    rw [decoded_encode hk, Text.Percent.decode?_encode hk]
    exact if_pos (hvalid t ht hchild)
  have hback : (fun s => (decode? s).getD []) ∘ encode keep = id :=
    funext fun s => by simp [Text.Percent.decode?_encode hk]
  rw [segments, hpieces, List.filter_map, hnames, mapM_ok_of_forall hread, List.map_map, hback,
    List.map_id]

theorem readGroup_groupText (c : Coordinate) :
    readGroup c.groupText = .ok (joined ['/'] (c.groupSegments.filter namesChild)) := by
  unfold readGroup groupText
  cases hg : c.group with
  | none =>
      simp only [groupSegments, hg]
      rfl
  | some g =>
      simp only [groupSegments, hg, Option.map_some, Option.getD_some]
      rw [segments_joined_encode rfl (Text.pieces_ne_nil _ _)
        (fun s _ => parting_slash.not_mem_encode rfl s)]
      · rfl
      · intro s hs _
        simpa using Text.not_mem_of_mem_pieces hs

theorem readSubpath_encode {s : List Char} (h : ∀ p ∈ pieces '/' s, namesChild p = true) :
    readSubpath (encode keepSlash s) = .ok s := by
  have hcut : ∀ p ∈ pieces '/' s, '/' ∉ encode keepSlash p := fun p hp hm =>
    Text.not_mem_of_mem_pieces hp
      (Text.Percent.mem_of_mem_encode hm (by decide) (by decide)).1
  have htext : encode keepSlash s = joined ['/'] ((pieces '/' s).map (encode keepSlash)) := by
    rw [← Text.Percent.encode_joined rfl, Text.joined_pieces]
  have hfilter : (pieces '/' s).filter namesChild = pieces '/' s :=
    List.filter_eq_self.mpr h
  rw [readSubpath, htext, segments_joined_encode rfl (Text.pieces_ne_nil _ _) hcut, hfilter]
  · exact congrArg Except.ok (Text.joined_pieces '/' s)
  · intro p hp hchild
    simp [hchild, Text.not_mem_of_mem_pieces hp]

/-- The written qualifiers, read one by one. -/
theorem readQualifiers_pairs {c : Coordinate} (h : c.Canonical) :
    readQualifiers (c.textParts.pairs.getD []) =
      .ok (c.qualifiers.entries.map fun q => (q.1.toList, q.2.toList)) := by
  have hkeys := h.keys
  have hvalues := h.values
  unfold textParts
  dsimp only
  cases hentries : c.qualifiers.entries with
  | nil => rfl
  | cons e es =>
      rw [hentries] at hkeys hvalues
      have hpieces : pieces '&' (joined ['&'] ((e :: es).map renderQualifier)) =
          (e :: es).map renderQualifier := by
        refine Text.pieces_joined (by simp) fun p hp => ?_
        obtain ⟨q, hq, rfl⟩ := List.mem_map.mp hp
        exact parting_amp.not_mem_qualifier (by decide) (by decide) (hkeys q hq).1
      have hread : ∀ w ∈ (e :: es).map fun q => (q.1.toList, encode keepSlashColon q.2.toList),
          (do return (w.1, ← decoded w.2) : Except Malformed (List Char × List Char)) =
            .ok (w.1, (decode? w.2).getD []) := by
        intro w hw
        obtain ⟨q, -, rfl⟩ := List.mem_map.mp hw
        rw [decoded_encode rfl, Text.Percent.decode?_encode rfl]
        rfl
      rw [readQualifiers]
      dsimp only [Option.getD_some]
      rw [hpieces, filterMap_map_of_forall
        (h := fun q => (q.1.toList, encode keepSlashColon q.2.toList))]
      · refine (mapM_ok_of_forall hread).trans ?_
        rw [List.map_map]
        have hback : ∀ cs, decode? (encode keepSlashColon cs) = some cs :=
          Text.Percent.decode?_encode rfl
        refine congrArg Except.ok (List.map_congr_left fun q _ => ?_)
        simp only [Function.comp, hback, Option.getD_some]
      · -- each pair is cut at its first '=', which is the one that was written
        intro q hq
        have heq : '=' ∉ q.1.toList := parting_eq.not_mem_key (hkeys q hq).1
        have hvalue : encode keepSlashColon q.2.toList ≠ [] :=
          mt Text.Percent.encode_eq_nil_iff.mp (hvalues q hq)
        obtain ⟨x, xs, hx⟩ := List.exists_cons_of_ne_nil hvalue
        simp only [renderQualifier, List.append_assoc, List.singleton_append,
          Text.cutFirst_append heq, hx]

/-- Qualifiers in canonical form are bound as they stand. -/
theorem bindQualifiers_entries {c : Coordinate} (h : c.Canonical) :
    bindQualifiers (c.qualifiers.entries.map fun q => (q.1.toList, q.2.toList)) =
      .ok c.qualifiers := by
  have hbind : ∀ q ∈ c.qualifiers.entries.map fun q => (q.1.toList, q.2.toList),
      ∀ m : StringMap String,
        (if validKey q.1 then
          Except.ok (m.insert (String.ofList (q.1.map Char.toLower)) (String.ofList q.2))
        else .error (.invalidKey (String.ofList q.1))) =
        (.ok (m.insert (String.ofList q.1) (String.ofList q.2)) :
          Except Malformed (StringMap String)) := by
    intro q hq m
    obtain ⟨e, he, rfl⟩ := List.mem_map.mp hq
    rw [if_pos (h.keys e he).1, (h.keys e he).2]
  rw [bindQualifiers, foldlM_ok_of_forall hbind, List.foldl_map]
  simp only [String.ofList_toList]
  exact congrArg Except.ok (Text.StringMap.foldl_insert_entries c.qualifiers)

/-! ## The round trip -/

/-- Dropping segments leaves a group in the spelling of its ecosystem. -/
theorem canonicalGroup_filter {e : String} {g : List Char} (h : canonicalGroup e g = g)
    (keeps : List Char → Bool) :
    canonicalGroup e (joined ['/'] ((pieces '/' g).filter keeps)) =
      joined ['/'] ((pieces '/' g).filter keeps) := by
  unfold canonicalGroup at h ⊢
  split
  · next he =>
    rw [if_pos he] at h
    refine Text.lowercase_of_lowered fun x hx => ?_
    rcases Text.mem_of_mem_joined hx with hx | ⟨p, hp, hx⟩
    · have hslash : Text.Lowered '/' := by decide +kernel
      exact List.mem_singleton.mp hx ▸ hslash
    · have hmem : x ∈ g := Text.mem_of_mem_pieces (List.mem_filter.mp hp).1 hx
      rw [← h] at hmem
      exact Text.lowered_of_mem_lowercase hmem
  · rfl

theorem group_undotted {c : Coordinate} (h : c.Canonical) : c.undotted.group =
    nonEmpty (canonicalGroup c.ecosystem (joined ['/'] (c.groupSegments.filter namesChild))) := by
  unfold undotted groupSegments
  cases hg : c.group with
  | none => exact (congrArg nonEmpty (canonicalGroup_nil c.ecosystem)).symm
  | some g => exact (congrArg nonEmpty (canonicalGroup_filter (h.group_spelling g hg) _)).symm

theorem nonEmpty_toList {s : String} (h : s.toList ≠ []) : nonEmpty s.toList = some s :=
  nonEmpty_eq_some_iff.mpr ⟨h, rfl⟩

theorem denote_textParts {c : Coordinate} (h : c.Canonical) : c.textParts.Denote c.undotted where
  valid := h.ecosystem_valid
  ecosystem := by
    show c.ecosystem = String.ofList (c.ecosystem.toList.map Char.toLower)
    rw [h.ecosystem_lower, String.ofList_toList]
  group := ⟨_, readGroup_groupText c, group_undotted h⟩
  name := by
    refine ⟨c.name.toList, decoded_encode rfl _, ?_⟩
    show c.name = String.ofList (canonicalName c.ecosystem c.name.toList)
    rw [h.name_spelling, String.ofList_toList]
  version := by
    refine ⟨c.version.map String.toList, ?_, ?_⟩
    · unfold textParts
      cases c.version with
      | none => rfl
      | some v =>
          show (do let r ← decoded (encode keepNone v.toList); return some r) = _
          rw [decoded_encode rfl]
          rfl
    · show c.version = (c.version.map String.toList).bind nonEmpty
      cases hv : c.version with
      | none => rfl
      | some v => exact (nonEmpty_toList (h.version_ne v hv)).symm
  qualifiers := ⟨_, readQualifiers_pairs h, bindQualifiers_entries h⟩
  subpath := by
    have hne : ∀ s, c.subpath = some s → s.toList ≠ [] := fun s hs =>
      Text.ne_nil_of_pieces fun p hp => namesChild_ne_nil (h.subpath_segments s hs p hp)
    refine ⟨c.subpath.map String.toList, ?_, ?_, ?_⟩
    · unfold textParts
      cases hs : c.subpath with
      | none => rfl
      | some s =>
          show (do let r ← readSubpath (encode keepSlash s.toList); return some r) = _
          rw [readSubpath_encode (h.subpath_segments s hs)]
          rfl
    · intro hnil
      obtain ⟨s, hs, hs'⟩ := Option.map_eq_some_iff.mp hnil
      exact hne s hs hs'
    · show c.subpath = (c.subpath.map String.toList).bind nonEmpty
      cases hs : c.subpath with
      | none => rfl
      | some s => exact (nonEmpty_toList (hne s hs)).symm

/-- **What is read from the text of a canonical coordinate.** -/
theorem parse_render {c : Coordinate} (h : c.Canonical) : parse c.render = .ok c.undotted := by
  rw [parse, render, String.toList_ofList]
  exact readChars_eq_ok_iff.mpr ⟨c.textParts, ofText_renderChars h, denote_textParts h⟩

/-! ## Groups that come back -/

theorem namesChild_iff {s : List Char} (hne : s ≠ []) :
    namesChild s = true ↔ s ≠ ['.'] ∧ s ≠ ['.', '.'] := by
  simp [namesChild, hne]

theorem undotted_of_dotFree {c : Coordinate} (h : c.Canonical) (hd : c.DotFree) :
    c.undotted = c := by
  unfold undotted
  cases hg : c.group with
  | none =>
      rw [Option.bind_none, ← hg]
  | some g =>
      have hsegments : c.groupSegments = pieces '/' g.toList := by rw [groupSegments, hg]; rfl
      have hnames : ∀ s ∈ pieces '/' g.toList, namesChild s = true := fun s hs =>
        (namesChild_iff (h.group_segments s (hsegments ▸ hs))).mpr (hd s (hsegments ▸ hs))
      have hne : g.toList ≠ [] :=
        Text.ne_nil_of_pieces fun p hp => h.group_segments p (hsegments ▸ hp)
      rw [Option.bind_some, List.filter_eq_self.mpr hnames, Text.joined_pieces, nonEmpty_toList hne,
        ← hg]

theorem dotFree_undotted (c : Coordinate) : c.undotted.DotFree := by
  intro s hs
  unfold undotted groupSegments at hs
  dsimp only at hs
  cases hg : c.group with
  | none =>
      rw [hg] at hs
      exact absurd hs List.not_mem_nil
  | some g =>
      rw [hg, Option.bind_some] at hs
      -- a group of nothing but dots is lost altogether
      by_cases hnil : (pieces '/' g.toList).filter namesChild = []
      · rw [hnil] at hs
        exact absurd hs List.not_mem_nil
      · cases hsome : nonEmpty (joined ['/'] ((pieces '/' g.toList).filter namesChild)) with
        | none =>
            rw [hsome] at hs
            exact absurd hs List.not_mem_nil
        | some t =>
            rw [hsome, Option.map_some, Option.getD_some, (nonEmpty_eq_some_iff.mp hsome).2,
              Text.pieces_joined hnil fun p hp =>
                Text.not_mem_of_mem_pieces (List.mem_filter.mp hp).1] at hs
            have hchild := (List.mem_filter.mp hs).2
            exact (namesChild_iff (namesChild_ne_nil hchild)).mp hchild

/-- **A canonical coordinate comes back from its text exactly when its group is free of dots.** -/
theorem parse_render_eq_self_iff {c : Coordinate} (h : c.Canonical) :
    parse c.render = .ok c ↔ c.DotFree := by
  rw [parse_render h, Except.ok.injEq]
  constructor
  · exact fun heq => heq ▸ dotFree_undotted c
  · exact undotted_of_dotFree h

end BomAssembly.Coordinate
