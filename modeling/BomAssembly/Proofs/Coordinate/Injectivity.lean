import Mathlib
import BomAssembly.Proofs.Coordinate.RoundTrip

/-!
# Coordinates with one text

Reading forgets the dots of a group, so that a text is read back as some coordinate does not say that
only that coordinate is written so. It is nevertheless true: the text is cut in one way only, and the
raw parts still hold the dots (`eq_of_render_eq`).

The coordinates that a program comes by are read from a text, or put together from group and name of
a Maven coordinate that was read (`Obtained`). All of them are canonical, so `obtained_reads_back_iff`
says of each what becomes of it when it is written and read again.
-/

namespace BomAssembly.Coordinate

open Text (pieces joined)
open Text.Percent (encode)

/-! ## The parts decide -/

/-- A text is cut into parts in one way. -/
theorem Parts.OfText.unique {cs : List Char} {p q : Parts} (hp : p.OfText cs) (hq : q.OfText cs) :
    p = q := by
  obtain ⟨kind, front, last, release, pairs, path⟩ := p
  obtain ⟨kind', front', last', release', pairs', path'⟩ := q
  obtain ⟨body, r₁, r₂, r₃, r₄, hbody, hpath, hpairs, hrelease, hkind, -, hlast⟩ := hp
  obtain ⟨body', s₁, s₂, s₃, s₄, hbody', hpath', hpairs', hrelease', hkind', -, hlast'⟩ := hq
  dsimp only at *
  -- each cut leaves what the next one cuts
  obtain ⟨-, rfl⟩ := Prod.mk.inj (Option.some.inj (hbody.symm.trans hbody'))
  obtain ⟨rfl, rfl⟩ := Prod.mk.inj (hpath.symm.trans hpath')
  obtain ⟨rfl, rfl⟩ := Prod.mk.inj (hpairs.symm.trans hpairs')
  obtain ⟨rfl, rfl⟩ := Prod.mk.inj (hrelease.symm.trans hrelease')
  obtain ⟨rfl, rfl⟩ := Prod.mk.inj (Option.some.inj (hkind.symm.trans hkind'))
  obtain ⟨rfl, rfl⟩ := Prod.mk.inj (hlast.symm.trans hlast')
  rfl

/-- The written group still holds every segment. -/
theorem pieces_groupText {c : Coordinate} (h : c.groupSegments ≠ []) :
    pieces '/' c.groupText = c.groupSegments.map (encode keepNone) := by
  refine Text.pieces_joined (by simpa using h) fun p hp => ?_
  obtain ⟨s, -, rfl⟩ := List.mem_map.mp hp
  exact parting_slash.not_mem_encode rfl s

theorem groupText_eq_nil_iff {c : Coordinate} (h : c.Canonical) :
    c.groupText = [] ↔ c.groupSegments = [] := by
  constructor
  · intro hnil
    by_contra hne
    -- an empty text is one empty piece, which no canonical group has
    have hpieces : [[]] = c.groupSegments.map (encode keepNone) := by
      rw [← pieces_groupText hne, hnil]
      rfl
    obtain ⟨s, hs, hs'⟩ := List.mem_map.mp (hpieces ▸ List.mem_singleton.mpr rfl)
    exact h.group_segments s hs (Text.Percent.encode_eq_nil_iff.mp hs')
  · intro hnil
    rw [groupText, hnil]
    rfl

theorem group_eq_of_groupSegments_eq {c d : Coordinate} (h : c.groupSegments = d.groupSegments) :
    c.group = d.group := by
  unfold groupSegments at h
  cases hc : c.group with
  | none =>
      rw [hc] at h
      cases hd : d.group with
      | none => rfl
      | some g =>
          rw [hd] at h
          exact absurd h.symm (Text.pieces_ne_nil '/' g.toList)
  | some g =>
      rw [hc] at h
      cases hd : d.group with
      | none =>
          rw [hd] at h
          exact absurd h (Text.pieces_ne_nil '/' g.toList)
      | some g' =>
          rw [hd] at h
          have hjoined := congrArg (joined ['/']) h
          dsimp only [Option.map_some, Option.getD_some] at hjoined
          rw [Text.joined_pieces, Text.joined_pieces] at hjoined
          rw [String.toList_inj.mp hjoined]

theorem group_eq_of_groupText_eq {c d : Coordinate} (hc : c.Canonical) (hd : d.Canonical)
    (h : c.groupText = d.groupText) : c.group = d.group := by
  refine group_eq_of_groupSegments_eq ?_
  by_cases hnil : c.groupSegments = []
  · have hnil' : d.groupText = [] := h ▸ (groupText_eq_nil_iff hc).mpr hnil
    rw [hnil, (groupText_eq_nil_iff hd).mp hnil']
  · have hnil' : d.groupSegments ≠ [] := fun hd' =>
      hnil ((groupText_eq_nil_iff hc).mp (h.trans ((groupText_eq_nil_iff hd).mpr hd')))
    have hencoded : c.groupSegments.map (encode keepNone) = d.groupSegments.map (encode keepNone) := by
      rw [← pieces_groupText hnil, ← pieces_groupText hnil', h]
    exact List.map_injective_iff.mpr (fun _ _ => Text.Percent.encode_injective rfl) hencoded

/-- **Canonical coordinates with one text are equal.** -/
theorem eq_of_render_eq {c d : Coordinate} (hc : c.Canonical) (hd : d.Canonical)
    (h : c.render = d.render) : c = d := by
  have hchars : c.renderChars = d.renderChars := String.ofList_injective h
  have hparts : c.textParts = d.textParts :=
    (ofText_renderChars hc).unique (hchars ▸ ofText_renderChars hd)
  have hgroup : c.group = d.group :=
    group_eq_of_groupText_eq hc hd (congrArg Parts.front hparts)
  -- all the rest is in what is read back
  have hrest : c.undotted = d.undotted :=
    Except.ok.inj ((parse_render hc).symm.trans (h ▸ parse_render hd))
  obtain ⟨ecosystem, group, name, version, qualifiers, subpath⟩ := c
  obtain ⟨ecosystem', group', name', version', qualifiers', subpath'⟩ := d
  dsimp only at hgroup
  subst hgroup
  unfold undotted at hrest
  obtain ⟨rfl, -, rfl, rfl, rfl, rfl⟩ := Coordinate.mk.inj hrest
  rfl

/-! ## Coordinates as programs come by them -/

/-- Read from a text, or put together from group and name of a Maven coordinate that was read. -/
inductive Obtained : Coordinate → Prop where
  | read {s : String} {c : Coordinate} (h : parse s = .ok c) : Obtained c
  | made {s : String} {k : Coordinate} {g : String} (h : parse s = .ok k)
    (hmaven : k.isMaven = true) (hg : k.group = some g)
    (version packaging classifier : Option String) :
    Obtained (maven g k.name version packaging classifier)

theorem Obtained.canonical {c : Coordinate} (h : c.Obtained) : c.Canonical := by
  cases h with
  | read h => exact canonical_of_parse h
  | made h hmaven hg =>
      exact canonical_maven (canonical_of_parse h) (eq_of_beq hmaven).symm hg.symm rfl

/-- **Writing and reading again.** The text of a coordinate is always read, as the coordinate without
the dots of its group; so the coordinate itself comes back exactly when there are none. And no other
coordinate has its text. -/
theorem obtained_reads_back_iff {c : Coordinate} (h : c.Obtained) :
    parse c.render = .ok c.undotted ∧ (parse c.render = .ok c ↔ c.DotFree) ∧
      ∀ d : Coordinate, d.Obtained → d.render = c.render → d = c :=
  ⟨parse_render h.canonical, parse_render_eq_self_iff h.canonical,
    fun _ hd heq => eq_of_render_eq hd.canonical h.canonical heq⟩

/-- A Maven coordinate whose group is a dot, as it is read from its escape. -/
def dottedText : String := "pkg:maven/%2E/a@1"

theorem parse_dottedText : parse dottedText = .ok ⟨"maven", some ".", "a", some "1", .empty, none⟩ := by
  cbv

theorem obtained_reads_back_iff_dotted :
    ∃ c : Coordinate, parse dottedText = .ok c ∧ parse c.render = .ok c.undotted ∧
      (parse c.render = .ok c ↔ c.DotFree) ∧
      ∀ d : Coordinate, d.Obtained → d.render = c.render → d = c :=
  ⟨_, parse_dottedText, obtained_reads_back_iff (.read parse_dottedText)⟩

/-- It is written with the bare dot, and what is read from that has no group. -/
theorem not_reads_back_dotted :
    ∃ c : Coordinate, parse dottedText = .ok c ∧ parse c.render ≠ .ok c :=
  ⟨_, parse_dottedText, by
    rw [ne_eq, parse_render_eq_self_iff (canonical_of_parse parse_dottedText)]
    decide⟩

end BomAssembly.Coordinate
