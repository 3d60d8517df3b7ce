/-!
# An example of settings

A file with all settings at their standard values, and what they mean.
-/

namespace BomAssembly.Settings

/-- The lines of the example. -/
def exampleLines : List String := [
  "# sbomgen configuration",
  "# Place this file at .sbomgen.yaml in your project root or ~/.config/sbomgen/",
  "",
  "# Event intake",
  "intake:",
  "  # ALL, BUILD, OPERATION or NONE (disables request creation)",
  "  trigger: ALL",
  "",
  "# Job run materialization",
  "orchestrator:",
  "  service_account: sbomer-sa",
  "  # Fixed ceiling per job run: ms, s, m, h or d suffix",
  "  timeout: 6h",
  "  workspace_claim: sbomer-sboms",
  "  workspace_name: data",
  "  operation_generate_task: sbomer-operation-generate",
  "  build_generate_task: sbomer-generate",
  "  output_root: /data",
  "",
  "# Command run inside each job run (\x7bpom\x7d and \x7bworkdir\x7d are substituted)",
  "generator:",
  "  command: [\"mvn\", \"-B\", \"-q\", \"org.cyclonedx:cyclonedx-maven-plugin:2.7.9:makeAggregateBom\",",
  "            \"-f\", \"\x7bpom\x7d\", \"-DoutputFormat=json\", \"-DoutputName=bom\", \"-DoutputDirectory=\x7bworkdir\x7d\"]",
  "  bom_path: bom.json",
  "",
  "# BOM reconciliation",
  "reconcile:",
  "  # The raw BOM is kept; the reconciled one is written as <stem><suffix>.json",
  "  enhanced_suffix: -enhanced"]

/-- The text of the example. -/
def exampleText : String := String.join (exampleLines.map fun l => l ++ "\n")

end BomAssembly.Settings
