import BomAssembly.CommandLine.Invocation
import BomAssembly.Proofs.Number.Spelling

/-!
# Words that are taken as they were written

An integer that is written in decimal digits is a value of an option for integers, and is read as
itself (`integer?_toString`, `takes_toString`). An option that is called by its name takes the word
behind it (`takeOptions_named`). So a line that names a file and a position asks for the deliverable
at that position (`read_generate_index`).
-/

namespace BomAssembly.CommandLine

open Number (isDigit_of_mem_toDigits toList_toString_nat toList_toString_negSucc)

/-! ## Integers -/

/-- No sign is a digit. -/
theorem head?_toDigits_ne {n : Nat} {c : Char} (hc : c.isDigit = false) :
    (Nat.toDigits 10 n).head? ≠ some c := by
  intro h
  have hdigit := isDigit_of_mem_toDigits (List.mem_of_mem_head? h)
  exact Bool.noConfusion (hdigit.symm.trans hc)

/-- **An integer is read from its digits.** -/
theorem integer?_toString {low high i : Int} (hlow : low ≤ i) (hhigh : i ≤ high) :
    integer? low high (toString i) = some i := by
  have hfilter : (some i).filter (fun i => low ≤ i ∧ i ≤ high) = some i :=
    Option.filter_some_pos (by simpa using ⟨hlow, hhigh⟩)
  cases i with
  | ofNat n =>
      have hread := Number.natural?_eq_some_iff.mpr (Number.spells_toDigits n)
      have htext : (toString (Int.ofNat n)).toList = Nat.toDigits 10 n := toList_toString_nat n
      rw [integer?, htext]
      split
      · next heq =>
        -- no digit is a dash
        have hdash : (Nat.toDigits 10 n).head? = some '-' := by rw [heq]; rfl
        exact absurd hdash (head?_toDigits_ne (by decide))
      · rw [hread]
        exact hfilter
  | negSucc n =>
      have hread := Number.natural?_eq_some_iff.mpr (Number.spells_toDigits (n + 1))
      rw [integer?, toList_toString_negSucc]
      simp only
      rw [if_neg (head?_toDigits_ne (by decide)), hread]
      exact hfilter

/-- The digits of an integer, with the sign in front, can stand behind an option for integers. -/
theorem takes_toString (i : Int) : ValueKind.integer.takes (toString i) = true := by
  unfold ValueKind.takes
  split
  · next c cs heq =>
    have hall : ∀ d ∈ c :: cs, d.isDigit = true := by
      cases i with
      | ofNat n =>
          have htext : (toString (Int.ofNat n)).toList = Nat.toDigits 10 n := toList_toString_nat n
          have hdash : (Nat.toDigits 10 n).head? = some '-' := by rw [← htext, heq]; rfl
          exact absurd hdash (head?_toDigits_ne (by decide))
      | negSucc n =>
          rw [toList_toString_negSucc] at heq
          rw [← (List.cons.inj heq).2]
          exact fun d hd => isDigit_of_mem_toDigits hd
    rw [Bool.and_eq_true, List.all_eq_true]
    exact ⟨by decide, hall⟩
  · rfl

/-! ## Options -/

section Named

variable {specs : List OptionSpec} {o : OptionSpec} {kind : ValueKind} {given : Given}

theorem give_value (hvalue : o.effect = .value kind) (hnew : given.lookup o.name = none)
    {word : String} (haccepts : kind.accepts word = true) :
    give o word given = .ok (given ++ [(o.name, word)]) := by
  rw [give, hnew, if_neg (by simp), hvalue]
  dsimp only
  rw [if_pos haccepts]

/-- An option that is called by its name takes the word behind it. -/
theorem takeOptions_named {called : String} {c : Char} {name : List Char}
    (hcalled : called.toList = '-' :: '-' :: c :: name)
    (hname : takeName specs (c :: name) given = .ok (given, some o))
    (hvalue : o.effect = .value kind) (hnew : given.lookup o.name = none) {word : String}
    (htakes : kind.takes word = true) (haccepts : kind.accepts word = true) (rest : List String) :
    takeOptions specs given none (called :: word :: rest) =
      takeOptions specs (given ++ [(o.name, word)]) none rest := by
  have hgive := give_value hvalue hnew haccepts
  rw [takeOptions, hcalled]
  show (takeName specs (c :: name) given >>= fun r => takeOptions specs r.1 r.2 (word :: rest)) = _
  rw [hname]
  show takeOptions specs given (some o) (word :: rest) = _
  rw [takeOptions, hvalue]
  dsimp only
  rw [if_pos htakes, hgive]
  rfl

end Named

/-! ## The line of a job run -/

/-- A word that an option for a path takes. -/
def IsPathWord (path : String) : Prop :=
  ValueKind.path.takes path = true ∧ ValueKind.path.accepts path = true

/-- The options that can stand behind the command of a job run. -/
def generateOptions : List OptionSpec :=
  ((commandOptions? "generate").map Prod.fst).getD [] ++ commonOptions

theorem takeOptions_index {given : Given} (hnew : given.lookup "index" = none) {i : Int}
    (hlow : -(Nat.pow 2 63 : Int) ≤ i) (hhigh : i ≤ (Nat.pow 2 63 : Int) - 1)
    (rest : List String) :
    takeOptions generateOptions given none ("--index" :: toString i :: rest) =
      takeOptions generateOptions (given ++ [("index", toString i)]) none rest := by
  have hname : takeName generateOptions "index".toList given =
      .ok (given, some { name := "index", effect := .value .integer }) := rfl
  have haccepts : ValueKind.integer.accepts (toString i) = true := by
    rw [ValueKind.accepts, integer?_toString hlow hhigh]
    rfl
  exact takeOptions_named rfl hname rfl hnew (takes_toString i) haccepts rest

/-- Behind the command come its options. -/
theorem read_generate_eq (words : List String) : read ("generate" :: words) =
    (takeOptions generateOptions [] none words >>= fun (given, rest) => do
      finished rest
      demand given ["operation-config"]
      let invocation ← invocationOf "generate" given
      return (invocation, commonOf [[], given])) := by
  have hlead : takeOptions leadingOptions [] none ("generate" :: words) =
      .ok ([], "generate" :: words) := rfl
  rw [read, hlead]
  rfl

/-- What a line asks for in which nothing but the options stands behind the command. -/
theorem read_generate_of_options {words : List String} {given : Given}
    (h : takeOptions generateOptions [] none words = .ok (given, []))
    (hgiven : given.has "operation-config" = true) :
    read ("generate" :: words) = (invocationOf "generate" given).map fun invocation =>
      (invocation, commonOf [[], given]) := by
  have hdemand : demand given ["operation-config"] = .ok () := by
    rw [demand, if_pos hgiven]
    rfl
  rw [read_generate_eq, h]
  show (demand given ["operation-config"] >>= fun _ => _) = _
  rw [hdemand]
  cases invocationOf "generate" given <;> rfl

section Line

variable {path : String} (hpath : IsPathWord path)

include hpath

theorem takeOptions_operationConfig (rest : List String) :
    takeOptions generateOptions [] none ("--operation-config" :: path :: rest) =
      takeOptions generateOptions [("operation-config", path)] none rest := by
  have hname : takeName generateOptions "operation-config".toList [] = .ok ([], some
      { name := "operation-config", effect := .value .path, letter := some 'c' }) := rfl
  exact takeOptions_named rfl hname rfl rfl hpath.1 hpath.2 rest

/-- A line with a file for the configuration. -/
theorem read_generate : read ["generate", "--operation-config", path] =
    .ok (.generate path none "workdir" "." false, ⟨false, none⟩) := by
  have htaken := takeOptions_operationConfig hpath []
  exact read_generate_of_options htaken rfl

/-- A line with a position in decimal digits, too. -/
theorem read_generate_index {i : Int} (hlow : -(Nat.pow 2 63 : Int) ≤ i)
    (hhigh : i ≤ (Nat.pow 2 63 : Int) - 1) :
    read ["generate", "--operation-config", path, "--index", toString i] =
      .ok (.generate path (some i) "workdir" "." false, ⟨false, none⟩) := by
  have htaken := takeOptions_operationConfig hpath ["--index", toString i]
  rw [takeOptions_index rfl hlow hhigh] at htaken
  rw [read_generate_of_options htaken rfl]
  show Except.ok (Invocation.generate path (integer? _ _ (toString i)) "workdir" "." false, _) = _
  rw [integer?_toString hlow hhigh]
  rfl

end Line

end BomAssembly.CommandLine
