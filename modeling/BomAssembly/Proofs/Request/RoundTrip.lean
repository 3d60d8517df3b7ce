import Mathlib
import BomAssembly.Proofs.Request.StoredForm

/-!
# What comes back from a stored request

Storing a request and reading it again keeps every field of it but, at times, its configuration. The
document of a configuration says all of it, but it is trimmed before it is read, and a last text that
ends in blanks, and is not between quotes, loses them (`not_reads_back_lineEnd`). No other text loses
anything (`reads_back_iff`).
-/

namespace BomAssembly

namespace Request

variable {record : Record} {r : Request}

/-- **A stored request is read again, and differs at most in its configuration.** It is the same one
just when its configuration, if it has one that fits, is what its document without the blanks at the
ends says. The document itself always says it, so only a document that does not keep its end can say
something else. -/
theorem reads_back_iff (h : ofRecord record = .ok r) :
    ∃ back, ofRecord r.toRecord = .ok back ∧ { back with config := r.config } = r ∧
      (back = r ↔ ∀ c, r.config = .valid c →
        Config.parse (Text.trimmed c.render) r.kind r.correlationId = .ok c) ∧
      ∀ c, r.config = .valid c →
        Config.parse c.render r.kind r.correlationId = .ok c ∧ (c.KeepsEnd → back = r) := by
  obtain ⟨-, hid, hcorrelation, hconfig⟩ := fields_of_ofRecord h
  -- all but the configuration is read from the text that it was written as
  have hsame : ({ r with config := .ofRaw r.configText r.kind r.correlationId } : Request) = r ↔
      ConfigState.ofRaw r.configText r.kind r.correlationId = r.config :=
    ⟨fun heq => congrArg Request.config heq, fun heq => by rw [heq]⟩
  refine ⟨_, ofRecord_toRecord_eq hid hcorrelation, rfl, hsame.trans ?_, fun c hc => ?_⟩
  · unfold configText
    cases hc : r.config with
    | missing => simp [ConfigState.ofRaw]
    | invalid raw error =>
        have hback := ConfigState.ofRaw_of_invalid (hconfig.symm.trans hc)
        simp [hback]
    | valid c => simp [ConfigState.ofRaw_eq_valid]
  · obtain ⟨hrange, hcheck⟩ := ConfigState.of_ofRaw_valid (hconfig.symm.trans hc)
    refine ⟨Config.parse_render hrange hcheck, fun hkeeps => hsame.mpr ?_⟩
    have htext : r.configText = some c.render := by rw [configText, hc]
    rw [htext, hc]
    exact ConfigState.ofRaw_render hrange hcheck hkeeps

theorem reads_back_iff_oneProduct :
    ofRecord (oneProductRequest "r").toRecord = .ok (oneProductRequest "r") ∧
    (oneProductRequest "r").config = .valid oneProduct ∧ oneProduct.KeepsEnd ∧
    ∃ back, ofRecord (oneProductRequest "r").toRecord = .ok back ∧ back = oneProductRequest "r" := by
  have hread := (storable_oneProductRequest "r").ofRecord_toRecord
  obtain ⟨back, hback, -, -, hsame⟩ := reads_back_iff hread
  exact ⟨hread, rfl, keepsEnd_oneProduct, back, hback, (hsame oneProduct rfl).2 keepsEnd_oneProduct⟩

end Request

/-! ## A last text that ends its line -/

section LineEnd

open Yaml (Document Node Value mappingValue? plainValue)

/-- A build of one product, whose generator takes arguments. -/
def buildWithArgs (args : String) : Config :=
  .build ⟨"b", [⟨⟨"cyclonedx-operation", none, some args⟩⟩]⟩

/-- Arguments that end their line, as they may be given. -/
def lineEndGiven : String :=
  "\x7b\"buildId\":\"b\",\"products\":[\x7b\"generator\":\x7b\"args\":\"x\\n\"\x7d\x7d]\x7d"

/-- The document that is written for them, but for the end of the last line. -/
def lineEndText : String :=
  "type: build\nbuildId: b\nproducts:\n- generator:\n    type: cyclonedx-operation\n    args: |\n      x"

/-- A request for a build. -/
def requestFor (c : Config) : Request := (Request.new "r" "1" .build "b").setConfig c

/-- The record of a request for a build, with a text for its configuration. -/
def recordWith (text : String) : Record :=
  { Request.new "r" "1" .build "b" with config := .invalid text "" : Request }.toRecord

theorem ofRecord_recordWith {text : String} {c : Config}
    (h : Config.parse (Text.trimmed text) .build "b" = .ok c) :
    Request.ofRecord (recordWith text) = .ok (requestFor c) := by
  have hid : Text.allBlank "1" = false := by decide
  have hcorrelation : Text.allBlank "b" = false := by decide
  rw [recordWith, Request.ofRecord_toRecord_eq hid hcorrelation]
  show Except.ok { Request.new "r" "1" .build "b" with
    config := .ofRaw (some text) .build "b" } = _
  rw [ConfigState.ofRaw_eq_valid.mpr h]
  rfl

/-- The generator in the document. -/
def lineEndGenerator : Node := .mapping none [
  (.scalar none .plain "type", .scalar none .plain "cyclonedx-operation"),
  (.scalar none .plain "args", .scalar none .literal "x")]

/-- The whole document. -/
def lineEndNode : Node := .mapping none [
  (.scalar none .plain "type", .scalar none .plain "build"),
  (.scalar none .plain "buildId", .scalar none .plain "b"),
  (.scalar none .plain "products", .sequence none [
    .mapping none [(.scalar none .plain "generator", lineEndGenerator)]])]

/-- What the product in the document means. -/
def lineEndProduct : Value := .map [(.str "generator", .map [
  (.str "type", .str "cyclonedx-operation"), (.str "args", .str "x")])]

/-- What the whole document means. -/
def lineEndValue : Value := .map [
  (.str "type", .str "build"), (.str "buildId", .str "b"), (.str "products", .seq [lineEndProduct])]

/-- The texts that stand plainly in the document. -/
def lineEndTexts : List String :=
  ["type", "build", "buildId", "b", "products", "generator", "cyclonedx-operation", "args"]

theorem means_lineEndNode (limit : Nat) :
    Document.Means ⟨some lineEndNode, []⟩ limit Yaml.maxDepth lineEndNode lineEndValue := by
  have htext : ∀ s ∈ lineEndTexts, ∀ depth,
      Document.Means ⟨some lineEndNode, []⟩ limit depth (.scalar none .plain s) (.str s) := by
    have hplain : ∀ s ∈ lineEndTexts, plainValue s = .text := by decide
    intro s hs depth
    exact .text (hplain s hs)
  have hargs : ∀ depth, Document.Means ⟨some lineEndNode, []⟩ limit depth
      (.scalar none .literal "x") (.str "x") := fun depth => .quoted (by decide) "x"
  have hgenerator : Document.Means ⟨some lineEndNode, []⟩ limit (Yaml.maxDepth - 3) lineEndGenerator
      (.map [(.str "type", .str "cyclonedx-operation"), (.str "args", .str "x")]) := by
    refine .mapping (.cons ⟨htext _ (by decide) _, htext _ (by decide) _⟩
      (.cons ⟨htext _ (by decide) _, hargs _⟩ .nil)) ?_
    simp [mappingValue?, Yaml.addEntry, Value.same, Yaml.withTag, Yaml.ownTag?]
  have hproduct : Document.Means ⟨some lineEndNode, []⟩ limit (Yaml.maxDepth - 2)
      (.mapping none [(.scalar none .plain "generator", lineEndGenerator)]) lineEndProduct :=
    .mapping (.cons ⟨htext _ (by decide) _, hgenerator⟩ .nil) (by rfl)
  refine .mapping (.cons ⟨htext _ (by decide) _, htext _ (by decide) _⟩ (.cons
    ⟨htext _ (by decide) _, htext _ (by decide) _⟩ (.cons
    ⟨htext _ (by decide) _, .sequence (.cons hproduct .nil)⟩ .nil))) ?_
  simp [mappingValue?, Yaml.addEntry, Value.same, Yaml.withTag, Yaml.ownTag?]

theorem parse_lineEndText : Config.parse lineEndText .build "b" = .ok (buildWithArgs "x") := by
  have hdocument : Document.parse? lineEndText = some ⟨some lineEndNode, []⟩ := by cbv
  have hmeans : Document.value? ⟨some lineEndNode, []⟩ = some lineEndValue :=
    Document.Means.value? rfl (means_lineEndNode _)
  have hvalue : Value.parse? lineEndText = some lineEndValue := by
    rw [Value.parse?, hdocument, Option.bind_some, hmeans]
  have hconfig : Config.ofValue .build lineEndValue = .ok (buildWithArgs "x") :=
    Config.ofValue_toData (c := buildWithArgs "x") trivial .build
  exact Config.parse_of_value hvalue hconfig rfl

theorem render_lineEnd : (buildWithArgs "x\n").render = lineEndText ++ "\n" := by
  have hlines : (buildWithArgs "x\n").toData.lines 0 = (lineEndText ++ "\n").toList := by
    simp [buildWithArgs, Config.toData, Yaml.Data.lines, Yaml.Data.inline, Yaml.entryLines,
      Yaml.itemLines, Product.toData, Generator.toData, optionalField, Config.tagName, Kind.tag]
    decide
  rw [Config.render, Yaml.Data.render, hlines, String.ofList_toList]

/-- **The end of the last line is lost**: a request that is stored and read again asks for other
arguments than before. -/
theorem not_reads_back_lineEnd : ¬ ∀ r, Request.ofRecord (recordWith lineEndGiven) = .ok r →
    Request.ofRecord r.toRecord = .ok r := by
  intro hall
  have hgiven : Config.parse (Text.trimmed lineEndGiven) .build "b" =
      .ok (buildWithArgs "x\n") := by cbv
  -- the line end that belongs to the arguments goes with the end of the document
  have htrimmed : Text.trimmed (buildWithArgs "x\n").render = lineEndText := by
    rw [render_lineEnd]
    decide
  have hback : Config.parse (Text.trimmed (buildWithArgs "x\n").render) .build "b" =
      .ok (buildWithArgs "x") := by
    rw [htrimmed, parse_lineEndText]
  have hread : Request.ofRecord (requestFor (buildWithArgs "x\n")).toRecord =
      .ok (requestFor (buildWithArgs "x")) := ofRecord_recordWith hback
  have hsame := hread.symm.trans (hall _ (ofRecord_recordWith hgiven))
  exact absurd (congrArg Request.config (Except.ok.inj hsame)) (by decide)

end LineEnd

end BomAssembly
