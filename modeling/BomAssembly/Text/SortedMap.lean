/-!
# Maps from text, in the order of the keys

A finite map whose entries are kept in strictly increasing order of their keys, so that two maps with
the same bindings are equal and every listing is in key order. Text is ordered by code point, which
is also the order of the UTF-8 bytes.
-/

namespace BomAssembly.Text

/-- Put a binding into an ordered list, replacing the one with the same key. -/
def insertEntry {α : Type} (key : String) (value : α) :
    List (String × α) → List (String × α)
  | [] => [(key, value)]
  | (k, v) :: rest =>
    if key < k then (key, value) :: (k, v) :: rest
    else if key = k then (key, value) :: rest
    else (k, v) :: insertEntry key value rest

theorem insertEntry_key {α : Type} {key : String} {value : α} {e : String × α} :
    ∀ {l : List (String × α)}, e ∈ insertEntry key value l → e = (key, value) ∨ e ∈ l
  | [], h => by simpa [insertEntry] using h
  | (k, v) :: rest, h => by
    unfold insertEntry at h
    split at h
    · simpa using h
    · split at h
      · rcases List.mem_cons.1 h with h | h
        · exact .inl h
        · exact .inr (List.mem_cons_of_mem _ h)
      · rcases List.mem_cons.1 h with h | h
        · exact .inr (h ▸ List.mem_cons_self)
        · rcases insertEntry_key h with h | h
          · exact .inl h
          · exact .inr (List.mem_cons_of_mem _ h)

theorem insertEntry_sorted {α : Type} {key : String} {value : α} :
    ∀ {l : List (String × α)}, l.Pairwise (fun a b => a.1 < b.1) →
      (insertEntry key value l).Pairwise (fun a b => a.1 < b.1)
  | [], _ => by simp [insertEntry]
  | (k, v) :: rest, h => by
    have hrest := (List.pairwise_cons.1 h).2
    have hhead := (List.pairwise_cons.1 h).1
    unfold insertEntry
    split
    · next hlt =>
      refine List.pairwise_cons.2 ⟨fun e he => ?_, h⟩
      rcases List.mem_cons.1 he with he | he
      · exact he ▸ hlt
      · exact String.lt_trans hlt (hhead e he)
    · next hlt =>
      split
      · next heq =>
        subst heq
        exact List.pairwise_cons.2 ⟨hhead, hrest⟩
      · next hne =>
        refine List.pairwise_cons.2 ⟨fun e he => ?_, insertEntry_sorted hrest⟩
        rcases insertEntry_key he with he | he
        · have hle : k ≤ key := String.not_lt.1 hlt
          subst he
          exact Decidable.byContradiction fun hn =>
            hne (String.le_antisymm (String.not_lt.1 hn) hle)
        · exact hhead e he

/-- A map from text, its bindings in key order. -/
structure StringMap (α : Type) where
  entries : List (String × α)
  sorted : entries.Pairwise (fun a b => a.1 < b.1)
  deriving DecidableEq

namespace StringMap

variable {α : Type}

/-- No bindings. -/
def empty : StringMap α := ⟨[], .nil⟩

instance : Inhabited (StringMap α) := ⟨empty⟩

/-- Bind a key, replacing what it was bound to. -/
def insert (m : StringMap α) (key : String) (value : α) : StringMap α :=
  ⟨insertEntry key value m.entries, insertEntry_sorted m.sorted⟩

/-- What a key is bound to. -/
def get? (m : StringMap α) (key : String) : Option α := m.entries.lookup key

/-- Whether the key is bound. -/
def contains (m : StringMap α) (key : String) : Bool := (m.get? key).isSome

/-- Drop a key. -/
def erase (m : StringMap α) (key : String) : StringMap α :=
  ⟨m.entries.filter (·.1 ≠ key), m.sorted.filter _⟩

/-- The keys in order. -/
def keys (m : StringMap α) : List String := m.entries.map Prod.fst

/-- The bindings in turn, a later one replacing an earlier one with its key. -/
def ofList (l : List (String × α)) : StringMap α := l.foldl (fun m e => m.insert e.1 e.2) empty

/-- Another value at each key. -/
def mapValues {β : Type} (f : α → β) (m : StringMap α) : StringMap β :=
  ⟨m.entries.map fun e => (e.1, f e.2), by
    have := m.sorted
    rw [List.pairwise_map]
    exact this⟩

@[ext] theorem ext {m n : StringMap α} (h : m.entries = n.entries) : m = n := by
  cases m; cases n; cases h; rfl

end StringMap

end BomAssembly.Text
