import BomAssembly.Xml.Node
import BomAssembly.Xml.Writer
import Mathlib.Data.List.TakeWhile

/-!
# The layout of a written document

The writer goes through the pieces of an element with what it has written so far. As long as no piece
is a text beside elements, it starts a line for each element, so what it writes is put together from
what the pieces are written to by themselves: the attributes in the tag (`attributesOf`) and the
elements between the tags, each on its line (`linesOf`).
-/

namespace BomAssembly.Xml

/-! ## Names -/

/-- A name that is there: the writer takes a name without characters for one. -/
def IsTagName (cs : List Char) : Prop := cs ≠ [] ∧ isName cs = true

instance (cs : List Char) : Decidable (IsTagName cs) := inferInstanceAs (Decidable (_ ∧ _))

/-- The first character of a name starts one. -/
theorem IsTagName.exists_cons {cs : List Char} (h : IsTagName cs) :
    ∃ c rest, cs = c :: rest ∧ startsName c = true := by
  obtain ⟨hne, hname⟩ := h
  cases cs with
  | nil => exact absurd rfl hne
  | cons c rest => exact ⟨c, rest, rfl, (Bool.and_eq_true_iff.mp hname).1⟩

theorem IsTagName.inside {cs : List Char} (h : IsTagName cs) :
    ∀ c ∈ cs, insideName c = true := by
  obtain ⟨hne, hname⟩ := h
  cases cs with
  | nil => exact absurd rfl hne
  | cons c rest => exact List.all_eq_true.mp (Bool.and_eq_true_iff.mp hname).2

/-- The characters with a meaning in a tag are in no name. -/
theorem IsTagName.free {cs : List Char} (h : IsTagName cs) {mark : Char}
    (hmark : insideName mark = false) : mark ∉ cs := by
  intro hmem
  rw [h.inside mark hmem] at hmark
  exact Bool.noConfusion hmark

/-- No name holds white space. -/
theorem IsTagName.not_isSpace {cs : List Char} (h : IsTagName cs) :
    ∀ c ∈ cs, isSpace c = false := by
  intro c hc
  refine Bool.eq_false_iff.mpr fun hspace => ?_
  simp only [isSpace, Bool.or_eq_true, beq_iff_eq] at hspace
  rcases hspace with ((rfl | rfl) | rfl) | rfl
  all_goals exact h.free (by decide) hc

/-- A name that an element can have, with no namespace mark in it. -/
structure IsLocalName (name : String) : Prop where
  tag : IsTagName name.toList
  plain : ':' ∉ name.toList

instance (name : String) : Decidable (IsLocalName name) :=
  decidable_of_iff (IsTagName name.toList ∧ ':' ∉ name.toList)
    ⟨fun h => ⟨h.1, h.2⟩, fun h => ⟨h.tag, h.plain⟩⟩

theorem IsLocalName.localName_eq {name : String} (h : IsLocalName name) :
    localName name.toList = name.toList := by
  have hnone : name.toList.dropWhile (· ≠ ':') = [] := by
    refine List.dropWhile_eq_nil_iff.mpr fun c hc => ?_
    exact decide_eq_true fun heq => h.plain (heq ▸ hc)
  rw [localName, hnone]

/-! ## References -/

/-- What a character is written as: itself, unless a reference is written for it. -/
theorem escapeChar_cases (c : Char) :
    (escapeChar c = [c] ∧ c ≠ '<' ∧ c ≠ '>' ∧ c ≠ '&') ∨
      (c = '<' ∧ escapeChar c = "&lt;".toList) ∨ (c = '>' ∧ escapeChar c = "&gt;".toList) ∨
        (c = '&' ∧ escapeChar c = "&amp;".toList) := by
  by_cases hlt : c = '<'
  · exact .inr (.inl ⟨hlt, if_pos hlt⟩)
  by_cases hgt : c = '>'
  · exact .inr (.inr (.inl ⟨hgt, by rw [escapeChar, if_neg hlt, if_pos hgt]⟩))
  by_cases hamp : c = '&'
  · exact .inr (.inr (.inr ⟨hamp, by rw [escapeChar, if_neg hlt, if_neg hgt, if_pos hamp]⟩))
  · exact .inl ⟨by rw [escapeChar, if_neg hlt, if_neg hgt, if_neg hamp], hlt, hgt, hamp⟩

/-- A written character is the one meant, or of a reference. -/
theorem mem_escapeChar {c x : Char} (h : x ∈ escapeChar c) :
    (x = c ∧ c ≠ '<') ∨ x ∈ "&ltgamp;".toList := by
  rcases escapeChar_cases c with ⟨heq, hc, -, -⟩ | ⟨-, heq⟩ | ⟨-, heq⟩ | ⟨-, heq⟩
  · exact .inl ⟨List.mem_singleton.mp (heq ▸ h), hc⟩
  all_goals
    have hreference : escapeChar c ⊆ "&ltgamp;".toList := by
      rw [heq]
      simp
    exact .inr (hreference h)

/-- No angle bracket is left in a written text. -/
theorem bracket_not_mem_escapeText (value : String) : '<' ∉ escapeText value := by
  intro hmem
  obtain ⟨c, -, hc⟩ := List.mem_flatMap.mp hmem
  rcases mem_escapeChar hc with ⟨heq, hne⟩ | href
  · exact hne heq.symm
  · exact absurd href (by decide)

/-! ## Pieces that are laid out in lines -/

/-- Pieces under names, with no text beside them, and so on inside of each. -/
inductive Layered : List Piece → Prop
  | nil : Layered []
  | inTag {name value : String} {rest : List Piece} (hname : IsTagName name.toList)
      (hrest : Layered rest) : Layered (.attribute name value :: rest)
  | leaf {name value : String} {rest : List Piece} (hname : IsTagName name.toList)
      (hrest : Layered rest) : Layered (.leaf name value :: rest)
  | branch {name : String} {pieces rest : List Piece} (hname : IsTagName name.toList)
      (hpieces : Layered pieces) (hrest : Layered rest) : Layered (.branch name pieces :: rest)

theorem Layered.append {ps qs : List Piece} (hps : Layered ps) (hqs : Layered qs) :
    Layered (ps ++ qs) := by
  induction hps with
  | nil => exact hqs
  | inTag hname _ ih => exact .inTag hname ih
  | leaf hname _ ih => exact .leaf hname ih
  | branch hname hpieces _ _ ih => exact .branch hname hpieces ih

/-- The attributes among pieces, as they stand in the tag. -/
def attributesOf : List Piece → List Char
  | [] => []
  | .attribute name value :: rest =>
    [' '] ++ name.toList ++ ['=', '"'] ++ escapeAttribute value ++ ['"'] ++ attributesOf rest
  | _ :: rest => attributesOf rest

/-- The elements among pieces, each on a line of its own at a nesting depth. -/
def linesOf (depth : Nat) : List Piece → List Char
  | [] => []
  | .leaf name value :: rest =>
    newLine depth ++ wrap name depth ⟨[], escapeText value, false⟩ ++ linesOf depth rest
  | .branch name pieces :: rest =>
    newLine depth ++ wrap name depth ⟨attributesOf pieces, linesOf (depth + 1) pieces, true⟩ ++
      linesOf depth rest
  | _ :: rest => linesOf depth rest

/-- **Pieces in lines are written one by one**, behind whatever is there. -/
theorem writePieces_of_layered {ps : List Piece} (h : Layered ps) :
    ∀ (depth : Nat) (attributes inside : List Char),
      writePieces depth ps ⟨attributes, inside, true⟩ =
        some ⟨attributes ++ attributesOf ps, inside ++ linesOf depth ps, true⟩ := by
  induction h with
  | nil =>
      intro depth attributes inside
      simp [writePieces, attributesOf, linesOf]
  | inTag hname _ ih =>
      intro depth attributes inside
      rw [writePieces, if_pos hname.2, ih]
      simp [attributesOf, linesOf]
  | leaf hname _ ih =>
      intro depth attributes inside
      rw [writePieces, if_pos hname.2]
      simp only [if_true, ih]
      simp [attributesOf, linesOf]
  | branch hname _ _ ihPieces ih =>
      intro depth attributes inside
      rw [writePieces, writeElement, if_pos hname.2, ihPieces]
      simp only [Option.map_some, if_true, ih]
      simp [attributesOf, linesOf]

/-- The element around pieces in lines. -/
theorem writeElement_of_layered {name : String} {ps : List Piece} (hname : IsTagName name.toList)
    (h : Layered ps) (depth : Nat) :
    writeElement depth name ps =
      some (wrap name depth ⟨attributesOf ps, linesOf (depth + 1) ps, true⟩) := by
  rw [writeElement, if_pos hname.2, writePieces_of_layered h]
  rfl

end BomAssembly.Xml
