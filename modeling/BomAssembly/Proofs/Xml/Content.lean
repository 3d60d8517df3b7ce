import BomAssembly.Proofs.Text.Cutting
import BomAssembly.Proofs.Xml.Reading
import BomAssembly.Xml.Content
import Mathlib.Data.List.TakeWhile

/-!
# The content of what was written

An element that is looked into gives back what it was written from. The references of a text stand for
the characters they were written for, and only white space at its ends is lost (`textOf_textNodes`);
the starts of lines between elements mean nothing (`contents_enclosed`); an attribute comes out with
its value as it was written.
-/

namespace BomAssembly.Xml

/-! ## Texts -/

/-- A text without the white space at its ends. -/
def stripped (value : String) : String :=
  String.ofList (dropEndSpace (value.toList.dropWhile isSpace))

/-- What stands for white space is the white space itself. -/
theorem escapeChar_of_isSpace {c : Char} (h : isSpace c = true) : escapeChar c = [c] := by
  rcases escapeChar_cases c with ⟨heq, -⟩ | ⟨rfl, -⟩ | ⟨rfl, -⟩ | ⟨rfl, -⟩
  · exact heq
  all_goals exact absurd h (by decide)

/-- What stands for another character has no white space at either end. -/
theorem escapeChar_of_not_isSpace {c : Char} (h : isSpace c = false) :
    (∃ d ds, escapeChar c = d :: ds ∧ isSpace d = false) ∧
      ∃ d ds, (escapeChar c).reverse = d :: ds ∧ isSpace d = false := by
  rcases escapeChar_cases c with ⟨heq, -⟩ | ⟨-, heq⟩ | ⟨-, heq⟩ | ⟨-, heq⟩
  · rw [heq]
    exact ⟨⟨c, [], rfl, h⟩, c, [], rfl, h⟩
  all_goals
    rw [heq]
    exact ⟨⟨_, _, rfl, rfl⟩, _, _, rfl, rfl⟩

/-- White space at the front of a text is at the front of what is written for it. -/
theorem dropWhile_isSpace_flatMap {f : Char → List Char}
    (hspace : ∀ c, isSpace c = true → f c = [c])
    (hother : ∀ c, isSpace c = false → ∃ d ds, f c = d :: ds ∧ isSpace d = false)
    (cs : List Char) : (cs.flatMap f).dropWhile isSpace = (cs.dropWhile isSpace).flatMap f := by
  induction cs with
  | nil => rfl
  | cons c cs ih =>
      cases hc : isSpace c with
      | true => simp [hspace c hc, hc, ih]
      | false =>
          obtain ⟨d, ds, hf, hd⟩ := hother c hc
          simp [hf, hc, hd]

theorem dropWhile_isSpace_escape (cs : List Char) :
    (cs.flatMap escapeChar).dropWhile isSpace = (cs.dropWhile isSpace).flatMap escapeChar :=
  dropWhile_isSpace_flatMap (fun _ => escapeChar_of_isSpace)
    (fun _ hc => (escapeChar_of_not_isSpace hc).1) cs

theorem dropEndSpace_escape (cs : List Char) :
    dropEndSpace (cs.flatMap escapeChar) = (dropEndSpace cs).flatMap escapeChar := by
  have hreverse : (cs.flatMap escapeChar).reverse =
      cs.reverse.flatMap (List.reverse ∘ escapeChar) := List.reverse_flatMap
  have hdrop := dropWhile_isSpace_flatMap (f := List.reverse ∘ escapeChar)
    (fun c hc => by rw [Function.comp_apply, escapeChar_of_isSpace hc]; rfl)
    (fun _ hc => (escapeChar_of_not_isSpace hc).2) cs.reverse
  rw [dropEndSpace, hreverse, hdrop, dropEndSpace, List.reverse_flatMap]
  simp [Function.comp_def]

/-- A reading of references that undoes the writing of each character undoes the writing of a text. -/
theorem expand_flatMap {f : Char → List Char}
    (hone : ∀ c rest, expand none (f c ++ rest) = (expand none rest).map (c :: ·))
    (cs : List Char) : expand none (cs.flatMap f) = some cs := by
  induction cs with
  | nil => rfl
  | cons c cs ih =>
      rw [List.flatMap_cons, hone, ih]
      rfl

theorem expand_escapeChar (c : Char) (rest : List Char) :
    expand none (escapeChar c ++ rest) = (expand none rest).map (c :: ·) := by
  rcases escapeChar_cases c with ⟨heq, -, -, hamp⟩ | ⟨rfl, -⟩ | ⟨rfl, -⟩ | ⟨rfl, -⟩
  · rw [heq, List.singleton_append, expand, if_neg hamp]
  all_goals rfl

/-- **References stand for the characters they were written for.** -/
theorem expand_escape (cs : List Char) : expand none (cs.flatMap escapeChar) = some cs :=
  expand_flatMap expand_escapeChar cs

/-- So they do in an attribute. -/
theorem expand_escapeAttribute (value : String) :
    expand none (escapeAttribute value) = some value.toList := by
  refine expand_flatMap (fun c rest => ?_) value.toList
  by_cases hquote : c = '"'
  · subst hquote
    rfl
  · rw [if_neg hquote]
    exact expand_escapeChar c rest

/-- Nothing is written only for nothing. -/
theorem flatMap_escapeChar_eq_nil {cs : List Char} (h : cs.flatMap escapeChar = []) : cs = [] := by
  have hexpand := expand_escape cs
  rw [h] at hexpand
  exact (Option.some.inj hexpand).symm

/-- **A text is read back without the white space at its ends.** -/
theorem textOf_textNodes (value : String) : textOf (textNodes value) = some (stripped value) := by
  by_cases hempty : escapeText value = []
  · rw [textNodes, if_pos hempty, stripped, flatMap_escapeChar_eq_nil hempty]
    rfl
  have hdrop := dropWhile_isSpace_escape value.toList
  rw [textNodes, if_neg hempty, textOf, contents, contentsAfter, contentsAfter,
    List.reverse_singleton, runContent, dropLeadingSpace, escapeText, hdrop]
  cases hrest : (value.toList.dropWhile isSpace).flatMap escapeChar with
  | nil =>
      -- nothing but white space
      simp only [dropLeadingSpace]
      rw [stripped, flatMap_escapeChar_eq_nil hrest]
      rfl
  | cons c cs =>
      have hexpand : expand none (dropEndSpace (c :: cs)) =
          some (dropEndSpace (value.toList.dropWhile isSpace)) := by
        rw [← hrest, dropEndSpace_escape, expand_escape]
      simp [runText, hexpand, stripped]

/-! ## White space between elements -/

/-- Space in front of an element means nothing. -/
theorem contents_line {space name attributes : List Char} (hspace : ∀ c ∈ space, isSpace c = true)
    (children rest : List Node) :
    contents (.text space :: .element name attributes children :: rest) =
      (contents rest).map (.element name attributes children :: ·) := by
  have hnone : space.dropWhile isSpace = [] := List.dropWhile_eq_nil_iff.mpr hspace
  simp only [contents, contentsAfter, List.reverse_singleton, runContent, dropLeadingSpace, hnone]
  cases contentsAfter [] rest <;> rfl

theorem contents_space {space : List Char} (hspace : ∀ c ∈ space, isSpace c = true) :
    contents [.text space] = some [] := by
  have hnone : space.dropWhile isSpace = [] := List.dropWhile_eq_nil_iff.mpr hspace
  simp only [contents, contentsAfter, List.reverse_singleton, runContent, dropLeadingSpace, hnone]

theorem isSpace_of_mem_newLine {depth : Nat} : ∀ c ∈ newLine depth, isSpace c = true := by
  intro c hc
  rw [newLine, List.mem_cons, List.mem_replicate] at hc
  rcases hc with rfl | ⟨-, rfl⟩
  · rfl
  · rfl

/-- The elements among pieces, as those see them who look into the element around them. -/
def contentOf (depth : Nat) : List Piece → List Content
  | [] => []
  | .leaf name value :: rest => .element name.toList [] (textNodes value) :: contentOf depth rest
  | .branch name pieces :: rest =>
    .element name.toList (attributesOf pieces) (enclosed depth (nodesOf (depth + 1) pieces)) ::
      contentOf depth rest
  | _ :: rest => contentOf depth rest

theorem contents_nodesOf (depth : Nat) {ps : List Piece} (h : Layered ps) {after : List Node}
    (hafter : contents after = some []) :
    contents (nodesOf depth ps ++ after) = some (contentOf depth ps) := by
  induction h with
  | nil => simpa [nodesOf, contentOf] using hafter
  | inTag _ _ ih => simpa [nodesOf, contentOf] using ih
  | leaf _ _ ih => simp [nodesOf, contentOf, contents_line isSpace_of_mem_newLine, ih]
  | branch _ _ _ _ ih => simp [nodesOf, contentOf, contents_line isSpace_of_mem_newLine, ih]

/-- **The starts of lines between elements mean nothing.** -/
theorem contents_enclosed (depth outer : Nat) {ps : List Piece} (h : Layered ps) :
    contents (enclosed outer (nodesOf depth ps)) = some (contentOf depth ps) := by
  by_cases hempty : nodesOf depth ps = []
  · have hnone := contents_nodesOf depth h (show contents [] = some [] from rfl)
    rw [enclosed, if_pos hempty]
    rwa [hempty, List.nil_append] at hnone
  · rw [enclosed, if_neg hempty]
    exact contents_nodesOf depth h (contents_space isSpace_of_mem_newLine)

theorem contentOf_append (depth : Nat) (ps qs : List Piece) :
    contentOf depth (ps ++ qs) = contentOf depth ps ++ contentOf depth qs := by
  induction ps with
  | nil => rfl
  | cons p ps ih => cases p <;> simp [contentOf, ih]

/-! ## Attributes -/

section Attributes

variable {name : String} (hname : IsTagName name.toList) (value : String)
include hname

/-- The only attribute of a tag stands behind a space. -/
theorem nextAttribute_written :
    ∃ c cs, (attributesOf [.attribute name value]).dropWhile isSpace = c :: cs ∧
      nextAttribute (c :: cs) = some ((name.toList, escapeAttribute value), []) := by
  obtain ⟨c, cs, hcs, -⟩ := hname.exists_cons
  have hc : isSpace c = false := hname.not_isSpace c (hcs ▸ List.mem_cons_self)
  have hall : ∀ x ∈ cs, (decide (x ≠ '=') && !isSpace x) = true := by
    intro x hx
    have hmem : x ∈ name.toList := hcs ▸ List.mem_cons_of_mem _ hx
    have hne : x ≠ '=' := fun heq => hname.free (show insideName '=' = false by decide) (heq ▸ hmem)
    rw [decide_eq_true hne, hname.not_isSpace x hmem]
    rfl
  have htake : (cs ++ '=' :: '"' :: escapeAttribute value ++ ['"']).takeWhile
      (fun c => c ≠ '=' && !isSpace c) = cs := by
    rw [List.append_assoc, List.takeWhile_append_of_pos hall]
    simp
  have hdrop : (cs ++ '=' :: '"' :: escapeAttribute value ++ ['"']).dropWhile
      (fun c => c ≠ '=' && !isSpace c) = '=' :: '"' :: escapeAttribute value ++ ['"'] := by
    rw [List.append_assoc, List.dropWhile_append_of_pos hall]
    simp
  have hcut : Text.cutFirst '"' (escapeAttribute value ++ ['"']) =
      some (escapeAttribute value, []) :=
    Text.cutFirst_append (quote_not_mem_escapeAttribute value)
  have hspaces : isSpace ' ' = true ∧ isSpace '=' = false ∧ isSpace '"' = false :=
    ⟨rfl, rfl, rfl⟩
  refine ⟨c, cs ++ '=' :: '"' :: escapeAttribute value ++ ['"'], ?_, ?_⟩
  · simp [attributesOf, hcs, hspaces, hc]
  · rw [nextAttribute]
    simp only [htake, hdrop]
    simp [hspaces, hcut, hcs]

omit hname in
variable (name) in
theorem length_attributesOf_pos : 0 < (attributesOf [.attribute name value]).length := by
  simp [attributesOf]

/-- **An attribute is read with the value it was written with.** -/
theorem attributes_written :
    attributes (attributesOf [.attribute name value]) =
      some [(name.toList, escapeAttribute value)] := by
  obtain ⟨c, cs, hdrop, hnext⟩ := nextAttribute_written hname value
  obtain ⟨n, hn⟩ := Nat.exists_eq_add_of_lt (length_attributesOf_pos name value)
  rw [attributes, hn, attributesFrom, hdrop]
  simp [hnext, attributesFrom]

/-- An element is not nil by an attribute of no other namespace. -/
theorem isNil_written (scope : Scope) (hcolon : ':' ∉ name.toList) :
    isNil scope (attributesOf [.attribute name value]) = false := by
  obtain ⟨c, cs, hdrop, hnext⟩ := nextAttribute_written hname value
  obtain ⟨n, hn⟩ := Nat.exists_eq_add_of_lt (length_attributesOf_pos name value)
  have hcut : Text.cutFirst ':' name.toList = none := Text.cutFirst_of_not_mem hcolon
  rw [isNil, hn, attributesUpTo, hdrop]
  simp [hnext, attributesUpTo, hcut]

end Attributes

@[simp] theorem attributes_nil : attributes [] = some [] := rfl

@[simp] theorem isNil_nil (scope : Scope) : isNil scope [] = false := rfl

@[simp] theorem enter_nil (scope : Scope) : scope.enter [] = scope := rfl

theorem attributesOf_append (ps qs : List Piece) :
    attributesOf (ps ++ qs) = attributesOf ps ++ attributesOf qs := by
  induction ps with
  | nil => rfl
  | cons p ps ih => cases p <;> simp [attributesOf, ih]

end BomAssembly.Xml
