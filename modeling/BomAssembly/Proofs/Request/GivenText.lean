import BomAssembly.Proofs.Request.JsonDocument
import BomAssembly.Proofs.Request.StoredForm
import Mathlib

/-!
# Texts as they are given

The configuration of a request is read from its text without the blanks around it, and a text that is
refused is kept without them too. `Mirrors` says that the blanks made no difference. In YAML the
indent of the first line has a meaning, and so have the line ends behind the last one, so they may make
one (`mirrors_ofRaw_iff`). They make none around JSON (`parse_trimmed_json`), nor around most documents
that configurations are written as (`parse_trimmed_render`). `mirrors_ofRaw` puts this together.
-/

namespace BomAssembly

open Json (JsonText Flat)

/-! ## What a text is held as -/

namespace ConfigState

/-- What is held is what the text is parsed as: the configuration, or the text as it stands and why it
is none. -/
structure Mirrors (state : ConfigState) (raw : String) (kind : Kind) (correlationId : String) :
    Prop where
  valid : ∀ c, state = .valid c ↔ Config.parse raw kind correlationId = .ok c
  invalid : ∀ e, Config.parse raw kind correlationId = .error e → state = .invalid raw e.message

section Blanks

variable {kind : Kind} {correlationId raw : String}

/-- A text that is refused is held without the blanks around it. -/
theorem ofRaw_eq_invalid (h : Text.allBlank raw = false) {e : Failure}
    (hparse : Config.parse (Text.trimmed raw) kind correlationId = .error e) :
    ofRaw (some raw) kind correlationId = .invalid (Text.trimmed raw) e.message := by
  unfold ofRaw
  rw [Option.map_some]
  split
  · next heq => exact absurd heq (by simp)
  · next heq => exact absurd (Option.some.inj heq) (Text.trimmed_ne_empty h)
  · next raw' _ heq =>
    obtain rfl := Option.some.inj heq
    rw [hparse]

theorem mirrors_trimmed (h : Text.allBlank raw = false) :
    (ofRaw (some raw) kind correlationId).Mirrors (Text.trimmed raw) kind correlationId :=
  ⟨fun _ => ofRaw_eq_valid, fun _ he => ofRaw_eq_invalid h he⟩

/-- A configuration that comes to the same without the blanks around it is what is held. -/
theorem mirrors_of_parse (h : Text.allBlank raw = false) {c : Config}
    (hraw : Config.parse raw kind correlationId = .ok c)
    (hparse : Config.parse (Text.trimmed raw) kind correlationId = .ok c) :
    (ofRaw (some raw) kind correlationId).Mirrors raw kind correlationId := by
  refine ⟨fun c' => ?_, fun e he => absurd (hraw.symm.trans he) (by simp)⟩
  rw [(mirrors_trimmed h).valid c', hraw, hparse]

/-- A text is held as what it is parsed as exactly when it has no blanks around it, or is a
configuration that comes to the same without them. -/
theorem mirrors_ofRaw_iff (h : Text.allBlank raw = false) :
    (ofRaw (some raw) kind correlationId).Mirrors raw kind correlationId ↔
      Text.trimmed raw = raw ∨ ∃ c, Config.parse raw kind correlationId = .ok c ∧
        Config.parse (Text.trimmed raw) kind correlationId = .ok c := by
  have htrimmed : (ofRaw (some raw) kind correlationId).Mirrors (Text.trimmed raw) kind
      correlationId := mirrors_trimmed h
  constructor
  · intro hmirrors
    cases hparse : Config.parse raw kind correlationId with
    | ok c =>
        have hheld := (hmirrors.valid c).mpr hparse
        exact .inr ⟨c, rfl, (htrimmed.valid c).mp hheld⟩
    | error e =>
        -- what is refused is held without the blanks, so there were none
        obtain ⟨-, hsame, -⟩ := trimmed_of_invalid (hmirrors.invalid e hparse)
        exact .inl hsame
  · rintro (hsame | ⟨c, hraw, hparse⟩)
    · rw [hsame] at htrimmed
      exact htrimmed
    · exact mirrors_of_parse h hraw hparse

end Blanks

end ConfigState

/-! ## Blanks around JSON -/

namespace Json

/-- An object without the white space around it. -/
def JsonText.bare (t : JsonText) : JsonText := ⟨.none, t.value, .none⟩

theorem Written.exists_collection {w : Written} (h : w.isCollection = true) :
    ∃ (opening closing : Char) (inner : List Char), w.text = opening :: (inner ++ [closing]) ∧
      Text.isBlank opening = false ∧ Text.isBlank closing = false := by
  cases w with
  | string | word => exact Bool.noConfusion h
  | array space items =>
      refine ⟨'[', ']', space.chars ++ items.text true, ?_, by decide, by decide⟩
      simp [Written.text]
  | object space members =>
      refine ⟨'\x7b', '\x7d', space.chars ++ members.text true, ?_, by decide, by decide⟩
      simp [Written.text]

theorem JsonText.trim_text {t : JsonText} (h : t.value.isCollection = true) :
    Text.trim t.text = t.bare.text := by
  obtain ⟨opening, closing, inner, htext, hopening, hclosing⟩ := Written.exists_collection h
  have hbare : t.bare.text = t.value.text := by
    simp [JsonText.text, JsonText.bare, Space.none]
  rw [JsonText.text, Text.trim_blank_append fun c hc => isBlank_of_isSpace (t.before.blank c hc),
    Text.trim_append_blank fun c hc => isBlank_of_isSpace (t.behind.blank c hc), hbare, htext]
  exact Text.trim_between hopening hclosing _

/-- A text that can be read as YAML can be read without the white space around it. -/
theorem JsonText.isYaml_bare {t : JsonText} (hyaml : t.isYaml = true) : t.bare.isYaml = true := by
  simp only [JsonText.isYaml, JsonText.isStream, JsonText.bare, JsonText.text, JsonText.below,
    Space.none, List.all_append, Bool.and_eq_true] at hyaml ⊢
  obtain ⟨⟨⟨⟨⟨⟨-, hvalue, -⟩, hpair⟩, -⟩, -⟩, hnear⟩, hsound⟩ := hyaml
  exact ⟨⟨⟨⟨⟨⟨rfl, hvalue, rfl⟩, hpair⟩, rfl⟩, rfl⟩, hnear⟩, hsound⟩

end Json

namespace Config

section Blanks

variable {kind : Kind} {correlationId raw : String}

/-- **White space around a JSON text makes no difference** if the text can be read. -/
theorem parse_trimmed_json {t : JsonText} (htext : t.Spells raw) (h : t.value.isCollection = true)
    (hflat : ∀ d ∈ raw.toList, Flat d) {c : Config} (hread : parse raw kind correlationId = .ok c) :
    parse (Text.trimmed raw) kind correlationId = .ok c := by
  have hheight : t.value.json.height ≤ Yaml.maxDepth :=
    Nat.le_trans (Json.height_le_of_readWritten htext.2) (by decide)
  have hvalue := t.parse?_text h (htext.1 ▸ hflat) hheight
  rw [htext.1, String.ofList_toList] at hvalue
  cases hyaml : t.isYaml with
  | false =>
      rw [hyaml] at hvalue
      rw [parse, hvalue] at hread
      exact absurd hread (by simp)
  | true =>
      have hbare : ∀ d ∈ t.bare.text, Flat d := by
        intro d hd
        refine hflat d ?_
        rw [← htext.1]
        have hmem : d ∈ t.value.text := by
          simpa [JsonText.text, JsonText.bare, Json.Space.none] using hd
        simp [JsonText.text, hmem]
      have hsame : Yaml.Value.parse? (Text.trimmed raw) = Yaml.Value.parse? raw := by
        rw [Text.trimmed, ← htext.1, JsonText.trim_text h, t.bare.parse?_text h hbare hheight,
          JsonText.isYaml_bare hyaml, hvalue, hyaml]
        rfl
      rw [← hread, parse, parse, hsame]

end Blanks

end Config

namespace ConfigState

section Blanks

variable {kind : Kind} {correlationId raw : String}

/-- **A text is held as what it is without the blanks around it.** That is what the text itself is parsed
as if there are no such blanks, and else only for a configuration that comes to the same without them.
A configuration in JSON does, and a document that a configuration was written as if the text it ends
with can spare its blanks. -/
theorem mirrors_ofRaw (h : Text.allBlank raw = false) :
    (ofRaw (some raw) kind correlationId).Mirrors (Text.trimmed raw) kind correlationId ∧
      ((ofRaw (some raw) kind correlationId).Mirrors raw kind correlationId ↔
        Text.trimmed raw = raw ∨ ∃ c, Config.parse raw kind correlationId = .ok c ∧
          Config.parse (Text.trimmed raw) kind correlationId = .ok c) ∧
      (∀ t : JsonText, t.Spells raw → t.value.isCollection = true → (∀ d ∈ raw.toList, Flat d) →
        ∀ c, Config.parse raw kind correlationId = .ok c →
          (ofRaw (some raw) kind correlationId).Mirrors raw kind correlationId) ∧
      (∀ c : Config, c.InRange → c.check kind correlationId = .ok () → c.KeepsEnd →
        raw = c.render → (ofRaw (some raw) kind correlationId).Mirrors raw kind correlationId) := by
  refine ⟨mirrors_trimmed h, mirrors_ofRaw_iff h, fun t htext hcollection hflat c hraw => ?_,
    fun c hrange hcheck hkeeps hrender => ?_⟩
  · exact mirrors_of_parse h hraw (Config.parse_trimmed_json htext hcollection hflat hraw)
  · have hraw := Config.parse_render hrange hcheck
    have hparse := Config.parse_trimmed_render hrange hcheck hkeeps
    rw [← hrender] at hraw hparse
    exact mirrors_of_parse h hraw hparse

/-- A document behind empty lines. -/
def blankLines : String := "\n\n\"buildId\": \"b\"\n"

theorem mirrors_ofRaw_blankLines : Text.allBlank blankLines = false ∧
    (ofRaw (some blankLines) .build "b").Mirrors blankLines .build "b" := by
  have hgiven : Text.allBlank blankLines = false := by decide
  have hraw : Config.parse blankLines .build "b" = .ok (.build ⟨"b", []⟩) := by cbv
  have hparse : Config.parse (Text.trimmed blankLines) .build "b" = .ok (.build ⟨"b", []⟩) := by cbv
  exact ⟨hgiven, (mirrors_ofRaw hgiven).2.1.mpr (.inr ⟨_, hraw, hparse⟩)⟩

/-- A document whose lines are indented. -/
def indented : String := "  \"buildId\": \"b\"\n  \"products\": []"

/-- What is left of it. -/
def outdented : String := "\"buildId\": \"b\"\n  \"products\": []"

/-- **An indented document is refused**, though it is parsed as a configuration that fits the request:
without its indent the first line is no longer in one column with the second. It is not kept as it
stands either. -/
theorem not_mirrors_indented : Text.allBlank indented = false ∧
    Config.parse indented .build "b" = .ok (.build ⟨"b", []⟩) ∧
    ofRaw (some indented) .build "b" = .invalid outdented Config.unparseable.message ∧
    ¬ (ofRaw (some indented) .build "b").Mirrors indented .build "b" := by
  have hgiven : Text.allBlank indented = false := by decide
  have hraw : Config.parse indented .build "b" = .ok (.build ⟨"b", []⟩) := by cbv
  have htrimmed : Text.trimmed indented = outdented := by decide
  have hparse : Config.parse outdented .build "b" = .error Config.unparseable := by decide +kernel
  have hheld := ofRaw_eq_invalid hgiven (htrimmed ▸ hparse)
  rw [htrimmed] at hheld
  refine ⟨hgiven, hraw, hheld, fun hmirrors => ?_⟩
  have hvalid := (hmirrors.valid _).mpr hraw
  exact absurd (hheld.symm.trans hvalid) (by simp)

end Blanks

end ConfigState

end BomAssembly
