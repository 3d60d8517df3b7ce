import BomAssembly.Bom.Document
import BomAssembly.Manifest.Detection
import BomAssembly.Proofs.Json.Written
import BomAssembly.Proofs.Text.Cutting

/-!
# No bill of materials is taken for a manifest

The kind of a manifest is told by a look at the text, a bill of materials by reading all of it. What
was read as one is an object, so the text begins with a brace, white space aside, and is no Maven
project; and a strict reader has seen the name of the format in the text, behind that white space, so
it is no list of coordinates either. What else the document holds does not matter: its entries under
`dependencies` may well be those of a list.
-/

namespace BomAssembly

/-! ## Text without the blanks in front -/

namespace Text

/-- What does not begin with a blank is not lost with the blanks in front. -/
theorem infix_trimStart {c : Char} {part cs : List Char} (hc : isBlank c = false)
    (h : c :: part <:+: cs) : c :: part <:+: trimStart cs := by
  induction cs with
  | nil => exact absurd (List.infix_nil.mp h) (by simp)
  | cons d cs ih =>
      rw [trimStart, List.dropWhile_cons]
      split
      · next hd =>
        rcases List.infix_cons_iff.mp h with hfront | hrest
        · -- the part would begin with the blank
          obtain ⟨rfl, -⟩ := List.cons_prefix_cons.mp hfront
          exact absurd (hc.symm.trans hd) (by simp)
        · exact ih hrest
      · exact h

theorem trimStart_blank_append {blanks : List Char} (h : ∀ c ∈ blanks, isBlank c = true)
    (cs : List Char) : trimStart (blanks ++ cs) = trimStart cs :=
  List.dropWhile_append_of_pos h

end Text

/-- **An object begins with a brace**, behind the blanks. -/
theorem Json.exists_brace {s : String} {fs : Json.Fields}
    (h : readWritten .any s = some (.obj fs)) :
    ∃ rest, Text.trimStart s.toList = '\x7b' :: rest := by
  obtain ⟨⟨before, w, behind⟩, htext, hvalue⟩ := exists_written h
  rw [← htext, JsonText.text,
    Text.trimStart_blank_append fun c hc => isBlank_of_isSpace (before.blank c hc)]
  dsimp only at hvalue ⊢
  cases w with
  | object space members => exact ⟨_, rfl⟩
  | word w => cases w <;> exact absurd hvalue (by simp [Written.json, Word.json])
  | string | array => exact absurd hvalue (by simp [Written.json])

/-- **What a strict reader takes for a bill of materials** is an object, and holds the name of the
format. -/
theorem Bom.marked_of_parse {content : String} {b : Bom} (h : parse true content = .ok b) :
    formatMarker.toList <:+: content.toList ∧
      ∃ fs, Json.readWritten .any content = some (.obj fs) := by
  rw [parse, Bool.true_and] at h
  split at h
  · exact absurd h (by simp)
  · next hmarker =>
    rw [Bool.not_eq_true', Bool.not_eq_false] at hmarker
    refine ⟨Text.occurs_iff.mp hmarker, ?_⟩
    split at h
    · exact absurd h (by simp)
    · next hread =>
      obtain ⟨v, hv, hobject⟩ := Option.bind_eq_some_iff.mp hread
      cases v with
      | obj fs => exact ⟨fs, hv⟩
      | null | bool | num | str | arr => exact absurd hobject (by simp [ofJson?, Json.fields?])

namespace Manifest

variable {content : String} {b : Bom} {rest : List Char}

/-! ## What either kind sees -/

theorem pomConfidence_eq_none (h : Text.trimStart content.toList = '\x7b' :: rest) :
    pomConfidence content = .none := by
  rw [pomConfidence, h]
  rfl

theorem listConfidence_eq_none (h : Text.trimStart content.toList = '\x7b' :: rest)
    (hmarker : "bomFormat".toList <:+: Text.trimStart content.toList) :
    listConfidence content = .none := by
  rw [h, ← Text.occurs_iff] at hmarker
  simp only [listConfidence, h, hmarker, Bool.not_true, Bool.and_false, Bool.false_eq_true, if_false]

/-- Where neither kind sees anything of its own, none is tried. -/
theorem detect_eq_none (hpom : pomConfidence content = .none)
    (hlist : listConfidence content = .none) : detect content = ⟨none, .none⟩ := by
  rw [detect, hpom, hlist]
  rfl

theorem parse_of_detect_eq_none (h : detect content = ⟨none, .none⟩) :
    parse content = .error (.unknownFormat "expected a Maven POM or a JSON coordinate list") := by
  rw [parse, h]

/-- **No bill of materials that names its format is taken for a manifest**: neither kind sees anything
of its own in it, none is detected, and it is refused for that. -/
theorem unmistaken (h : Bom.parse true content = .ok b) :
    (pomConfidence content = .none ∧ listConfidence content = .none) ∧
    detect content = ⟨none, .none⟩ ∧
    parse content = .error (.unknownFormat "expected a Maven POM or a JSON coordinate list") ∧
    ∀ m, parse content ≠ .ok m := by
  obtain ⟨hmarker, fs, hread⟩ := Bom.marked_of_parse h
  obtain ⟨rest, hbrace⟩ := Json.exists_brace hread
  -- the name of the format stands between quotes, and a quote is no blank
  have hquoted : Bom.formatMarker.toList <:+: Text.trimStart content.toList :=
    Text.infix_trimStart (by decide) hmarker
  have hname : "bomFormat".toList <:+: Bom.formatMarker.toList := ⟨['"'], ['"'], by decide⟩
  have hpom := pomConfidence_eq_none hbrace
  have hlist := listConfidence_eq_none hbrace (hname.trans hquoted)
  have hdetect := detect_eq_none hpom hlist
  have hparse := parse_of_detect_eq_none hdetect
  exact ⟨⟨hpom, hlist⟩, hdetect, hparse, fun m hm => absurd (hparse.symm.trans hm) (by simp)⟩

/-- A bill of materials behind a blank line, whose entries under `dependencies` are none. -/
def emptyDocument : String :=
  "\n\t\x7b\"dependencies\":[],\"bomFormat\":\"CycloneDX\"\x7d"

/-- A reader of lists would take it for a list without entries, if it were asked. -/
theorem unmistaken_emptyDocument :
    ∃ b, Bom.parse true emptyDocument = .ok b ∧ parseList emptyDocument = .ok ⟨none, []⟩ ∧
      detect emptyDocument = ⟨none, .none⟩ := by
  have hmarker : Text.contains emptyDocument Bom.formatMarker = true := by cbv
  have hread : Json.readWritten .any emptyDocument = some (.obj [
      ("dependencies", .arr []), ("bomFormat", .str "CycloneDX")]) := by cbv
  have hparse : Bom.parse true emptyDocument = .ok
      { Bom.empty with specVersion := "", version := none, dependencies := some [] } := by
    rw [Bom.parse, hmarker, hread]
    rfl
  refine ⟨_, hparse, ?_, (unmistaken hparse).2.1⟩
  rw [parseList, hread]
  rfl

end Manifest

end BomAssembly
