import BomAssembly.Yaml.Value
import Mathlib.Data.List.Forall2

/-!
# What nodes without aliases mean

A node that follows no alias has one value, however many aliases were followed before it. `Means`
says so, with a rule for each kind of node, so that the value of a document is found node by node.
-/

namespace BomAssembly.Yaml

section Steps

variable {α β : Type}

/-- A step that follows no alias, and what comes behind it. -/
theorem bind_of_some {m : StateT Nat Option α} {f : α → StateT Nat Option β} {jumps : Nat} {a : α}
    (h : m jumps = some (a, jumps)) : (m >>= f) jumps = f a jumps := by
  show (m jumps).bind (fun r => f r.1 r.2) = _
  rw [h, Option.bind_some]

theorem bind_of_none {m : StateT Nat Option α} {f : α → StateT Nat Option β} {jumps : Nat}
    (h : m jumps = none) : (m >>= f) jumps = none := by
  show (m jumps).bind (fun r => f r.1 r.2) = _
  rw [h, Option.bind_none]

theorem mapM_of_forall₂ {f : α → StateT Nat Option β} {jumps : Nat} {as : List α} {bs : List β}
    (h : List.Forall₂ (fun a b => f a jumps = some (b, jumps)) as bs) :
    as.mapM f jumps = some (bs, jumps) := by
  induction h with
  | nil => rfl
  | cons ha _ ih =>
      rw [List.mapM_cons, bind_of_some ha, bind_of_some ih]
      rfl

/-- Items one of which may have no value. -/
theorem mapM_cons_ite {f : α → StateT Nat Option β} {jumps : Nat} {a : α} {as : List α} {b : β}
    {bs : List β} {p q : Bool} (h : f a jumps = if p then some (b, jumps) else none)
    (hmore : as.mapM f jumps = if q then some (bs, jumps) else none) :
    (a :: as).mapM f jumps = if p && q then some (b :: bs, jumps) else none := by
  rw [List.mapM_cons]
  cases p with
  | false => exact bind_of_none h
  | true =>
      rw [bind_of_some h]
      cases q with
      | false => exact bind_of_none hmore
      | true => exact bind_of_some hmore

end Steps

theorem scalarValue?_of_plain {s : String} {v : Value} (h : Value.ofPlain? s = some v) :
    scalarValue? none .plain s = some v := by
  show (Value.ofPlain? s).bind (withTag none) = _
  rw [h]
  rfl

/-- The key and the value of an entry. -/
def Document.resolveEntry (d : Document) (limit depth : Nat) (e : Node × Node) :
    StateT Nat Option (Value × Value) := do
  return (← d.resolve limit depth e.1, ← d.resolve limit depth e.2)

namespace Document

variable (d : Document) (limit depth jumps : Nat)

theorem resolve_scalar (style : Style) (s : String) :
    d.resolve limit depth (.scalar none style s) jumps =
      (scalarValue? none style s).map fun v => (v, jumps) := by
  have hself : d.follow limit (.scalar none style s) jumps =
      some (.scalar none style s, jumps) := rfl
  cases depth <;>
  · rw [resolve, bind_of_some hself]
    show (scalarValue? none style s).bind (fun v => some (v, jumps)) = _
    cases scalarValue? none style s <;> rfl

theorem resolve_sequence (items : List Node) :
    d.resolve limit (depth + 1) (.sequence none items) jumps =
      (items.mapM (d.resolve limit depth) jumps).map fun r => (Value.seq r.1, r.2) := by
  have hself : d.follow limit (.sequence none items) jumps =
      some (.sequence none items, jumps) := rfl
  rw [resolve, bind_of_some hself]
  show (items.mapM (d.resolve limit depth) jumps).bind (fun r => some (Value.seq r.1, r.2)) = _
  cases items.mapM (d.resolve limit depth) jumps <;> rfl

theorem resolve_mapping (entries : List (Node × Node)) :
    d.resolve limit (depth + 1) (.mapping none entries) jumps =
      (entries.mapM (d.resolveEntry limit depth) jumps).bind fun r =>
        (mappingValue? none r.1).map fun v => (v, r.2) := by
  have hself : d.follow limit (.mapping none entries) jumps =
      some (.mapping none entries, jumps) := rfl
  have hlift : ∀ r : List (Value × Value) × Nat,
      (mappingValue? none r.1).bind (fun v => some (v, r.2)) =
        (mappingValue? none r.1).map fun v => (v, r.2) := fun r => by
    cases mappingValue? none r.1 <;> rfl
  rw [resolve, bind_of_some hself]
  show (entries.mapM (d.resolveEntry limit depth) jumps).bind
    (fun r => (mappingValue? none r.1).bind fun v => some (v, r.2)) = _
  simp only [hlift]

theorem resolveEntry_of_key {key value : Node} {k : Value}
    (h : d.resolve limit depth key jumps = some (k, jumps)) :
    d.resolveEntry limit depth (key, value) jumps =
      (d.resolve limit depth value jumps).map fun r => ((k, r.1), r.2) := by
  rw [resolveEntry, bind_of_some h]
  show (d.resolve limit depth value jumps).bind (fun r => some ((k, r.1), r.2)) = _
  cases d.resolve limit depth value jumps <;> rfl

end Document

/-- A node has this value in a document, and no alias is followed for it. -/
def Document.Means (d : Document) (limit depth : Nat) (node : Node) (v : Value) : Prop :=
  ∀ jumps, d.resolve limit depth node jumps = some (v, jumps)

namespace Document.Means

variable {d : Document} {limit depth : Nat}

/-- A scalar without a tag means what its style and its text say. -/
theorem scalar {style : Style} {s : String} {v : Value}
    (h : scalarValue? none style s = some v) :
    d.Means limit depth (.scalar none style s) v := by
  intro jumps
  rw [resolve_scalar, h]
  rfl

/-- A plain scalar means what it reads as. -/
theorem plain {s : String} {v : Value} (h : Value.ofPlain? s = some v) :
    d.Means limit depth (.scalar none .plain s) v :=
  .scalar (scalarValue?_of_plain h)

/-- A plain scalar that reads as nothing else is a text. -/
theorem text {s : String} (h : plainValue s = .text) :
    d.Means limit depth (.scalar none .plain s) (.str s) :=
  .plain (by rw [Value.ofPlain?, h])

/-- Between quotes and in a block everything is a text. -/
theorem quoted {style : Style} (h : style ≠ .plain) (s : String) :
    d.Means limit depth (.scalar none style s) (.str s) := by
  refine .scalar ?_
  have hplain : (style == .plain) = false := beq_eq_false_iff_ne.mpr h
  have hself : Value.ofScalar? none style s = some (.str s) := by
    rw [Value.ofScalar?, hplain]
    rfl
  show (Value.ofScalar? none style s).bind (withTag none) = _
  rw [hself]
  rfl

theorem sequence {items : List Node} {vs : List Value}
    (h : List.Forall₂ (d.Means limit depth) items vs) :
    d.Means limit (depth + 1) (.sequence none items) (.seq vs) := by
  intro jumps
  rw [resolve_sequence, mapM_of_forall₂ (h.imp fun _ _ hmeans => hmeans jumps)]
  rfl

theorem mapping {entries : List (Node × Node)} {vs : List (Value × Value)}
    (h : List.Forall₂ (fun e w => d.Means limit depth e.1 w.1 ∧ d.Means limit depth e.2 w.2)
      entries vs) (hkeys : mappingValue? none vs = some (.map vs)) :
    d.Means limit (depth + 1) (.mapping none entries) (.map vs) := by
  intro jumps
  rw [resolve_mapping, mapM_of_forall₂ (h.imp ?_), Option.bind_some, hkeys]
  · rfl
  · rintro e w ⟨hkey, hvalue⟩
    rw [resolveEntry_of_key _ _ _ _ (hkey jumps), hvalue jumps]
    rfl

/-- The value of the node at the top is that of the document. -/
theorem value? {root : Node} {v : Value} (hroot : d.root = some root)
    (h : d.Means d.jumpLimit maxDepth root v) : d.value? = some v := by
  rw [Document.value?, hroot]
  dsimp only
  rw [h]
  rfl

end Document.Means

end BomAssembly.Yaml
