import BomAssembly.Control.Platform
import BomAssembly.Request.Record

/-!
# Stores of requests

A store holds the records of requests under their names. `Store` is one that is held in memory: it
keeps the records in the order of their arrival, one for each name; a record that is written again
keeps its place.
-/

namespace BomAssembly

/-- A store, as the controller and the intake see it. -/
class RequestStore (σ : Type) where
  /-- All records. -/
  list : σ → Except PlatformError (List Record)
  /-- The record of a name, if there is one. -/
  find : String → σ → Except PlatformError (Option Record)
  /-- Add a record whose name is new. -/
  create : Record → σ → Attempt σ
  /-- Write a record in place of the one of its name. -/
  update : Record → σ → Attempt σ

/-- A store held in memory. -/
structure Store where
  records : List Record
  names_nodup : (records.map Record.name).Nodup
  deriving DecidableEq

namespace Store

/-- A store without records. -/
def empty : Store := ⟨[], .nil⟩

instance : Inhabited Store := ⟨empty⟩

/-- The names in the order of arrival. -/
def names (s : Store) : List String := s.records.map Record.name

/-- The record of a name. -/
def get? (s : Store) (name : String) : Option Record := s.records.find? fun r => r.name = name

/-- How many records there are. -/
def size (s : Store) : Nat := s.records.length

/-- Whether there are none. -/
def isEmpty (s : Store) : Bool := s.records.isEmpty

/-- The records with one of them written again. -/
def replaced (r : Record) (records : List Record) : List Record :=
  records.map fun old => if old.name = r.name then r else old

theorem names_replaced (r : Record) (records : List Record) :
    (replaced r records).map Record.name = records.map Record.name := by
  unfold replaced
  rw [List.map_map]
  refine List.map_congr_left fun old _ => ?_
  simp only [Function.comp]
  split
  · next h => exact h.symm
  · rfl

/-- Add a record whose name is new. -/
def create (r : Record) (s : Store) : Attempt Store :=
  if h : r.name ∈ s.names then (s, .error (.alreadyExists r.name))
  else
    (⟨s.records ++ [r], by
      rw [List.map_append, List.nodup_append]
      refine ⟨s.names_nodup, by simp, fun a ha b hb hab => ?_⟩
      simp only [List.map_cons, List.map_nil, List.mem_singleton] at hb
      exact h (hb ▸ hab ▸ ha)⟩, .ok ())

/-- Write a record in place of the one of its name. -/
def update (r : Record) (s : Store) : Attempt Store :=
  if r.name ∈ s.names then
    (⟨replaced r s.records, by rw [names_replaced]; exact s.names_nodup⟩, .ok ())
  else (s, .error (.notFound r.name))

/-- Drop the record of a name. -/
def erase (name : String) (s : Store) : Store :=
  ⟨s.records.filter fun r => r.name ≠ name,
    s.names_nodup.sublist (List.filter_sublist.map Record.name)⟩

instance : RequestStore Store where
  list s := .ok s.records
  find name s := .ok (s.get? name)
  create := create
  update := update

end Store

/-- Store a new request. -/
def RequestStore.submit {σ : Type} [RequestStore σ] (r : Request) (s : σ) :
    σ × Except Failure Unit :=
  let (s, done) := RequestStore.create r.toRecord s
  (s, done.mapError PlatformError.toFailure)

end BomAssembly
