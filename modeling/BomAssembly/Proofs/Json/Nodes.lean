import BomAssembly.Proofs.Json.Stream
import BomAssembly.Proofs.Yaml.Tree

/-!
# JSON texts as YAML nodes

The tokens of a JSON text are those of one node, with a node for each of its values in the same place
(`JsonText.document?_eq`). That takes a name to be known as one everywhere: a colon behind a scalar that
is none is a colon too many.
-/

namespace BomAssembly.Json

open Yaml (Document Node NodeReader Setting Token readNode readFlowItems readFlowEntries readFlowValue)
open Yaml.Lexer (keyTokens nameTokens)

mutual

/-- The node that a value is read as. -/
def Written.node : Written → Node
  | .string signs => .scalar none .doubleQuoted (signsString signs)
  | .word w => .scalar none .plain (String.ofList w.text)
  | .array _ items => .sequence none items.nodes
  | .object _ members => .mapping none members.nodes

/-- The nodes of the items. -/
def WrittenItems.nodes : WrittenItems → List Node
  | .nil => []
  | .cons _ item _ more => item.node :: more.nodes

/-- The nodes of the names and values. -/
def WrittenMembers.nodes : WrittenMembers → List (Node × Node)
  | .nil => []
  | .cons name value _ more => (.scalar none .doubleQuoted name.string, value.node) :: more.nodes

end

mutual

/-- Whether every name is known as one. -/
def Written.isNear : Written → Bool
  | .array _ items => items.isNear
  | .object _ members => members.isNear
  | _ => true

/-- `Written.isNear` for all items. -/
def WrittenItems.isNear : WrittenItems → Bool
  | .nil => true
  | .cons _ item _ more => item.isNear && more.isNear

/-- `Written.isNear` for all members. -/
def WrittenMembers.isNear : WrittenMembers → Bool
  | .nil => true
  | .cons name value _ more => name.isNear && (value.isNear && more.isNear)

end

/-! ## Reading nodes -/

/-- A token that a value begins with. -/
inductive StartsValue : Token → Prop where
  | scalar (style : Yaml.Style) (text : List Char) : StartsValue (.scalar style text)
  | array : StartsValue .flowSequence
  | object : StartsValue .flowMapping

theorem Written.exists_tokens (w : Written) : ∃ t ts, w.tokens = t :: ts ∧ StartsValue t := by
  cases w with
  | string signs => exact ⟨_, _, rfl, .scalar _ _⟩
  | word w => exact ⟨_, _, rfl, .scalar _ _⟩
  | array space items => exact ⟨_, _, rfl, .array⟩
  | object space members => exact ⟨_, _, rfl, .object⟩

section Steps

variable (s : NodeReader) (rest : List Token)

theorem readNode_array (fuel : Nat) (setting : Setting) (tokens : List Token) :
    readNode (fuel + 1) setting (s.before (.flowSequence :: tokens)) =
      (readFlowItems fuel true (s.before tokens)).map fun r => (.sequence none r.1, r.2) := by
  rw [readNode]
  show ((readFlowItems fuel true (s.before tokens)).bind fun r =>
    some (Node.sequence none r.1, r.2)).bind (fun r => some (NodeReader.remember none r.1 r.2)) = _
  cases readFlowItems fuel true (s.before tokens) <;> rfl

theorem readNode_object (fuel : Nat) (setting : Setting) (tokens : List Token) :
    readNode (fuel + 1) setting (s.before (.flowMapping :: tokens)) =
      (readFlowEntries fuel true (s.before tokens)).map fun r => (.mapping none r.1, r.2) := by
  rw [readNode]
  show ((readFlowEntries fuel true (s.before tokens)).bind fun r =>
    some (Node.mapping none r.1, r.2)).bind (fun r => some (NodeReader.remember none r.1 r.2)) = _
  cases readFlowEntries fuel true (s.before tokens) <;> rfl

theorem readFlowItems_end (fuel : Nat) (first : Bool) :
    readFlowItems (fuel + 1) first (s.before (.flowSequenceEnd :: rest)) =
      some ([], s.before rest) := by
  rw [readFlowItems]
  rfl

theorem readFlowEntries_end (fuel : Nat) (first : Bool) :
    readFlowEntries (fuel + 1) first (s.before (.flowMappingEnd :: rest)) =
      some ([], s.before rest) := by
  rw [readFlowEntries]
  rfl

theorem readFlowItems_item (fuel : Nat) (first : Bool) {t : Token} (ht : StartsValue t)
    (tokens : List Token) :
    readFlowItems (fuel + 1) first (s.before (commaTokens first ++ t :: tokens)) =
      (readNode fuel .flow (s.before (t :: tokens))).bind fun r =>
        (readFlowItems fuel false r.2).bind fun r' => some (r.1 :: r'.1, r'.2) := by
  rw [readFlowItems]
  cases first <;> cases ht <;> rfl

theorem readFlowValue_value {fuel : Nat} {close t : Token}
    (hclose : Token.endsFlow close t = false) (tokens : List Token) :
    readFlowValue (fuel + 1) close (s.before (.value :: t :: tokens)) =
      readNode fuel .flow (s.before (t :: tokens)) := by
  have hthere : ((s.before (.value :: t :: tokens)).skip.next?.any (Token.endsFlow close)) = false :=
    hclose
  have hvalue : ((s.before (.value :: t :: tokens)).next? == some .value) = true := rfl
  rw [readFlowValue, if_pos hvalue, if_neg (by simp [hthere])]
  rfl

/-- An entry, with a name that is known as one. -/
theorem readFlowEntries_entry (fuel : Nat) (first : Bool) (style : Yaml.Style) (name : List Char)
    {t : Token} (ht : StartsValue t) (tokens : List Token) :
    readFlowEntries (fuel + 2) first
      (s.before (commaTokens first ++ .key :: .scalar style name :: .value :: t :: tokens)) =
        (readNode fuel .flow (s.before (t :: tokens))).bind fun r =>
          (readFlowEntries (fuel + 1) false r.2).bind fun r' =>
            some ((.scalar none style (String.ofList name), r.1) :: r'.1, r'.2) := by
  have hvalue : readFlowValue (fuel + 1) .flowMappingEnd (s.before (.value :: t :: tokens)) =
      readNode fuel .flow (s.before (t :: tokens)) :=
    readFlowValue_value s (by cases ht <;> rfl) tokens
  have hname := Yaml.readNode_scalar s (.value :: t :: tokens) fuel .flow style name
  have hentry : ((readNode (fuel + 1) .flow
      (s.before (.scalar style name :: .value :: t :: tokens))).bind fun r =>
        (readFlowValue (fuel + 1) .flowMappingEnd r.2).bind fun r' =>
          (readFlowEntries (fuel + 1) false r'.2).bind fun r'' =>
            some ((r.1, r'.1) :: r''.1, r''.2)) =
        (readNode fuel .flow (s.before (t :: tokens))).bind fun r =>
          (readFlowEntries (fuel + 1) false r.2).bind fun r' =>
            some ((.scalar none style (String.ofList name), r.1) :: r'.1, r'.2) := by
    rw [hname, Option.bind_some, hvalue]
  rw [← hentry, readFlowEntries]
  cases first <;> rfl

/-- **A name that is not known as one** is an entry by itself, and behind it comes no colon. -/
theorem readFlowEntries_far (fuel : Nat) (first : Bool) (style : Yaml.Style) (name : List Char)
    (tokens : List Token) : readFlowEntries fuel first
      (s.before (commaTokens first ++ .scalar style name :: .value :: tokens)) = none := by
  have hcolon : ∀ fuel, readFlowEntries fuel false (s.before (.value :: tokens)) = none := by
    intro fuel
    cases fuel with
    | zero => rw [readFlowEntries]
    | succ fuel =>
        rw [readFlowEntries]
        rfl
  have hentry : ∀ fuel, ((readNode fuel .flow (s.before (.scalar style name :: .value :: tokens))).bind
      fun r => (readFlowEntries fuel false r.2).bind fun r' =>
        some ((r.1, Node.empty) :: r'.1, r'.2)) = none := by
    intro fuel
    cases fuel with
    | zero => rw [readNode]; rfl
    | succ fuel =>
        rw [Yaml.readNode_scalar s (.value :: tokens) fuel .flow style name, Option.bind_some, hcolon]
        rfl
  cases fuel with
  | zero => rw [readFlowEntries]
  | succ fuel =>
      rw [← hentry fuel, readFlowEntries]
      cases first <;> rfl

end Steps

mutual

/-- **The tokens of a value are read as its node**, if all names in it are known. -/
theorem Written.read (w : Written) (s : NodeReader) (rest : List Token) (setting : Setting) (fuel : Nat)
    (hfuel : 2 * w.tokens.length + 1 ≤ fuel) :
    readNode fuel setting (s.before (w.tokens ++ rest)) =
      if w.isNear then some (w.node, s.before rest) else none := by
  obtain ⟨fuel, rfl⟩ : ∃ k, fuel = k + 1 := ⟨fuel - 1, by omega⟩
  match w with
  | .string signs => exact Yaml.readNode_scalar s rest fuel setting .doubleQuoted (signs.map Sign.char)
  | .word w => exact Yaml.readNode_scalar s rest fuel setting .plain w.text
  | .array space items =>
      have htokens : (Written.array space items).tokens ++ rest =
          .flowSequence :: (items.tokens true ++ .flowSequenceEnd :: rest) := by
        simp [Written.tokens]
      have hlength : (Written.array space items).tokens.length = (items.tokens true).length + 2 := by
        simp [Written.tokens]
      rw [htokens, readNode_array, items.read true s rest fuel (by omega), Written.isNear, Written.node]
      cases items.isNear <;> rfl
  | .object space members =>
      have htokens : (Written.object space members).tokens ++ rest =
          .flowMapping :: (members.tokens true ++ .flowMappingEnd :: rest) := by
        simp [Written.tokens]
      have hlength : (Written.object space members).tokens.length =
          (members.tokens true).length + 2 := by
        simp [Written.tokens]
      rw [htokens, readNode_object, members.read true s rest fuel (by omega), Written.isNear,
        Written.node]
      cases members.isNear <;> rfl

theorem WrittenItems.read (items : WrittenItems) (first : Bool) (s : NodeReader) (rest : List Token)
    (fuel : Nat) (hfuel : 2 * (items.tokens first).length + 2 ≤ fuel) :
    readFlowItems fuel first (s.before (items.tokens first ++ .flowSequenceEnd :: rest)) =
      if items.isNear then some (items.nodes, s.before rest) else none := by
  obtain ⟨fuel, rfl⟩ : ∃ k, fuel = k + 1 := ⟨fuel - 1, by omega⟩
  match items with
  | .nil => exact readFlowItems_end s rest fuel first
  | .cons before item behind more =>
      obtain ⟨t, ts, hitem, ht⟩ := item.exists_tokens
      have htokens : (WrittenItems.cons before item behind more).tokens first ++
          .flowSequenceEnd :: rest = commaTokens first ++ t ::
            (ts ++ (more.tokens false ++ .flowSequenceEnd :: rest)) := by
        simp [WrittenItems.tokens, hitem]
      have hlength : item.tokens.length + (more.tokens false).length ≤
          ((WrittenItems.cons before item behind more).tokens first).length := by
        simp [WrittenItems.tokens]
      have hpos : 0 < item.tokens.length := by simp [hitem]
      have hread := item.read s (more.tokens false ++ .flowSequenceEnd :: rest) .flow fuel (by omega)
      have hmore := more.read false s rest fuel (by omega)
      rw [hitem, List.cons_append] at hread
      rw [htokens, readFlowItems_item s fuel first ht, hread, WrittenItems.isNear, WrittenItems.nodes]
      cases item.isNear with
      | false => rfl
      | true =>
          rw [if_pos rfl, Option.bind_some, hmore]
          cases more.isNear <;> rfl

theorem WrittenMembers.read (members : WrittenMembers) (first : Bool) (s : NodeReader)
    (rest : List Token) (fuel : Nat) (hfuel : 2 * (members.tokens first).length + 2 ≤ fuel) :
    readFlowEntries fuel first (s.before (members.tokens first ++ .flowMappingEnd :: rest)) =
      if members.isNear then some (members.nodes, s.before rest) else none := by
  obtain ⟨fuel, rfl⟩ : ∃ k, fuel = k + 2 := ⟨fuel - 2, by omega⟩
  match members with
  | .nil => exact readFlowEntries_end s rest (fuel + 1) first
  | .cons name value behind more =>
      obtain ⟨t, ts, hvalue, ht⟩ := value.exists_tokens
      have htokens : (WrittenMembers.cons name value behind more).tokens first ++
          .flowMappingEnd :: rest = commaTokens first ++ (keyTokens name.isNear ++
            .scalar .doubleQuoted (name.signs.map Sign.char) :: .value :: t ::
              (ts ++ (more.tokens false ++ .flowMappingEnd :: rest))) := by
        simp [WrittenMembers.tokens, nameTokens, Name.isNear, hvalue]
      rw [htokens, WrittenMembers.isNear]
      cases hname : name.isNear with
      | false => exact readFlowEntries_far s _ first _ _ _
      | true =>
          have hlength : 3 + value.tokens.length + (more.tokens false).length ≤
              ((WrittenMembers.cons name value behind more).tokens first).length := by
            rw [Name.isNear] at hname
            simp [WrittenMembers.tokens, nameTokens, keyTokens, hname]
            omega
          have hread := value.read s (more.tokens false ++ .flowMappingEnd :: rest) .flow fuel
            (by omega)
          have hmore := more.read false s rest (fuel + 1) (by omega)
          rw [hvalue, List.cons_append] at hread
          show readFlowEntries (fuel + 2) first (s.before (commaTokens first ++ .key ::
            .scalar .doubleQuoted (name.signs.map Sign.char) :: .value :: t :: _)) = _
          rw [readFlowEntries_entry s fuel first .doubleQuoted (name.signs.map Sign.char) ht, hread,
            WrittenMembers.nodes]
          cases value.isNear with
          | false => rfl
          | true =>
              rw [if_pos rfl, Option.bind_some, hmore]
              cases more.isNear <;> rfl

end

/-! ## Documents -/

/-- The document that a text is read as. -/
def JsonText.document (t : JsonText) : Document := ⟨some t.value.node, []⟩

theorem JsonText.ofTokens?_eq (t : JsonText) : Document.ofTokens? (t.value.tokens ++ [.streamEnd]) =
    if t.value.isNear then some t.document else none := by
  obtain ⟨first, tokens, htokens, hfirst⟩ := t.value.exists_tokens
  -- named, so that the fuel, which is made from their length, is not evaluated
  obtain ⟨all, hall⟩ : ∃ all, t.value.tokens ++ [Token.streamEnd] = first :: all :=
    ⟨tokens ++ [.streamEnd], by rw [htokens]; rfl⟩
  have hlength : t.value.tokens.length + 1 = (first :: all).length := by
    rw [← hall, List.length_append]
    rfl
  have hread := t.value.read { tokens := [], handles := Yaml.standardHandles } [.streamEnd] .block
    (2 * (first :: all).length + 2) (by omega)
  rw [hall] at hread ⊢
  have hdirectives : Yaml.readDirectives false [] (first :: all) = some ([], first :: all) := by
    cases hfirst <;> rfl
  have hsome : (first :: all == [.streamEnd]) = false := by cases hfirst <;> rfl
  rw [Document.ofTokens?, hsome, hdirectives, if_neg (by decide)]
  dsimp only [Option.bind_eq_bind, Option.bind_some]
  rw [if_pos rfl]
  have hnode : readNode (2 * (first :: all).length + 2) .block
      { tokens := first :: all, handles := [] ++ Yaml.standardHandles } = _ := hread
  cases hfirst
  all_goals
    dsimp only
    rw [hnode]
    cases t.value.isNear <;> rfl

/-- **The document of a JSON text.** -/
theorem JsonText.document?_eq {t : JsonText} (h : t.value.isCollection = true)
    (hflat : ∀ c ∈ t.text, Flat c) : Document.parse? (String.ofList t.text) =
      if t.isStream && t.value.isNear then some t.document else none := by
  rw [Document.parse?, t.tokens?_eq h hflat]
  cases t.isStream with
  | false => rfl
  | true => exact t.ofTokens?_eq

end BomAssembly.Json
