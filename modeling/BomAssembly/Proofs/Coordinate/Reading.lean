import BomAssembly.Coordinate.Reader
import BomAssembly.Proofs.Fallible
import BomAssembly.Proofs.Text.Cutting
import BomAssembly.Proofs.Text.PercentEncoding

/-!
# What a package URL is read as

Reading does two things: it cuts the text into raw parts, and it reads each part on its own. The
main statement, `readChars_eq_ok_iff`, says that a text is read as a coordinate exactly when there
are raw parts that the text is cut into and that denote the coordinate. All later facts about
reading go through it and never look into the reader again.
-/

namespace BomAssembly.Coordinate

open Text

/-- The raw parts of a package URL, before anything is decoded. -/
structure Parts where
  kind : List Char
  /-- What stands between the ecosystem and the name. -/
  front : List Char
  last : List Char
  release : Option (List Char)
  pairs : Option (List Char)
  path : Option (List Char)

/-- The text is cut into these parts, from its ends inward. -/
def Parts.OfText (cs : List Char) (p : Parts) : Prop :=
  ∃ body r₁ r₂ r₃ r₄, cutFirst ':' cs = some ("pkg".toList, body) ∧
    cutTail '#' body = (r₁, p.path) ∧ cutTail '?' r₁ = (r₂, p.pairs) ∧
    cutTail '@' r₂ = (r₃, p.release) ∧
    cutFirst '/' (r₃.dropWhile (· == '/')) = some (p.kind, r₄) ∧ dropEndSlashes r₄ ≠ [] ∧
    (cutLast '/' (dropEndSlashes r₄)).getD ([], dropEndSlashes r₄) = (p.front, p.last)

/-- The parts, each read on its own, make up the coordinate. -/
structure Parts.Denote (p : Parts) (c : Coordinate) : Prop where
  valid : validEcosystem p.kind = true
  ecosystem : c.ecosystem = String.ofList (p.kind.map Char.toLower)
  group : ∃ g, readGroup p.front = .ok g ∧ c.group = nonEmpty (canonicalGroup c.ecosystem g)
  name : ∃ n, decoded p.last = .ok n ∧ c.name = String.ofList (canonicalName c.ecosystem n)
  version : ∃ v, p.release.mapM decoded = .ok v ∧ c.version = v.bind nonEmpty
  qualifiers : ∃ qs, readQualifiers (p.pairs.getD []) = .ok qs ∧
    bindQualifiers qs = .ok c.qualifiers
  subpath : ∃ s, p.path.mapM readSubpath = .ok s ∧ s ≠ some [] ∧ c.subpath = s.bind nonEmpty

/-- **A text is read as a coordinate exactly when it is cut into parts that denote it.** -/
theorem readChars_eq_ok_iff {cs : List Char} {c : Coordinate} :
    readChars cs = .ok c ↔ ∃ p : Parts, p.OfText cs ∧ p.Denote c := by
  constructor
  · intro h
    simp only [readChars, bind, Except.bind] at h
    split at h
    case h_2 => exact absurd h (by simp)
    case h_1 scheme body hscheme =>
    split at h
    case isTrue => exact absurd h (by simp)
    case isFalse hpkg =>
    split at h
    case h_1 => exact absurd h (by simp)
    case h_2 s hs =>
    split at h
    case h_1 => exact absurd h (by simp)
    case h_2 qs hqs =>
    split at h
    case h_1 => exact absurd h (by simp)
    case h_2 v hv =>
    split at h
    case h_2 => exact absurd h (by simp)
    case h_1 kind r₄ hkind =>
    split at h
    case isFalse => exact absurd h (by simp)
    case isTrue hvalid =>
    split at h
    case isTrue => exact absurd h (by simp)
    case isFalse hbody =>
    split at h
    case h_1 => exact absurd h (by simp)
    case h_2 n hn =>
    split at h
    case h_1 => exact absurd h (by simp)
    case h_2 g hg =>
    split at h
    case isTrue => exact absurd h (by simp)
    case isFalse hpath =>
    split at h
    case h_1 => exact absurd h (by simp)
    case h_2 m hm =>
    have hc := (Except.ok.inj h).symm
    subst hc
    have hscheme' : scheme = "pkg".toList := Decidable.not_not.mp hpkg
    subst hscheme'
    exact ⟨⟨kind, _, _, _, _, _⟩, ⟨body, _, _, _, r₄, hscheme, rfl, rfl, rfl, hkind, hbody, rfl⟩,
      ⟨hvalid, rfl, ⟨g, hg, rfl⟩, ⟨n, hn, rfl⟩, ⟨v, hv, rfl⟩, ⟨qs, hqs, hm⟩, ⟨s, hs, hpath, rfl⟩⟩⟩
  · rintro ⟨⟨kind, front, last, release, pairs, path⟩,
      ⟨body, r₁, r₂, r₃, r₄, hscheme, hpath, hpairs, hrelease, hkind, hbody, hlast⟩,
      ⟨hvalid, heco, ⟨g, hg, hgroup⟩, ⟨n, hn, hname⟩, ⟨v, hv, hversion⟩, ⟨qs, hqs, hm⟩,
        ⟨s, hs, hne, hsub⟩⟩⟩
    obtain ⟨ecosystem, group, name, version, qualifiers, subpath⟩ := c
    dsimp only at *
    subst heco hgroup hname hversion hsub
    simp only [readChars, hscheme, hpath, hpairs, hrelease, hkind, hlast, hs, hqs, hv, hn, hg, hm,
      hvalid, hbody, hne, bind, Except.bind, pure, Except.pure]
    simp

theorem parse?_eq_some_iff {s : String} {c : Coordinate} : parse? s = some c ↔ parse s = .ok c := by
  unfold parse?
  cases parse s with
  | error e => simp [Except.toOption]
  | ok k => simp [Except.toOption]

/-! ## The parts -/

theorem decoded_eq_ok_iff {cs t : List Char} : decoded cs = .ok t ↔ Percent.decode? cs = some t := by
  unfold decoded
  split
  · next u hu => rw [hu]; simp
  · next hu => rw [hu]; simp

/-- The text without the slashes at its end does not end in a slash. -/
theorem dropEndSlashes_ne_append (cs a : List Char) : dropEndSlashes cs ≠ a ++ ['/'] := by
  intro h
  unfold dropEndSlashes at h
  have hrev := congrArg List.reverse h
  rw [List.reverse_reverse, List.reverse_append, List.reverse_singleton,
    List.singleton_append] at hrev
  have hhead := List.head?_dropWhile_not (· == '/') cs.reverse
  rw [hrev] at hhead
  exact absurd hhead (by simp)

/-- The name is never cut to nothing. -/
theorem Parts.OfText.last_ne_nil {cs : List Char} {p : Parts} (h : p.OfText cs) : p.last ≠ [] := by
  obtain ⟨body, r₁, r₂, r₃, r₄, -, -, -, -, -, hbody, hlast⟩ := h
  intro hnil
  cases hcut : cutLast '/' (dropEndSlashes r₄) with
  | none =>
      rw [hcut] at hlast
      exact hbody ((Prod.mk.inj hlast).2.trans hnil)
  | some ab =>
      obtain ⟨a, b⟩ := ab
      rw [hcut] at hlast
      obtain ⟨rfl, rfl⟩ := Prod.mk.inj hlast
      rw [hnil] at hcut
      exact dropEndSlashes_ne_append r₄ p.front (eq_of_cutLast hcut)

end BomAssembly.Coordinate
