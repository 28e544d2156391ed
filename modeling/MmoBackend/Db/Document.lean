import Mathlib.Data.Int.Notation
import Mathlib.Data.List.Nodup
import MmoBackend.Authentication.AwaitingConnections

/-!
# The records of the database

A record of the collection `Playerdata` is a document, a list of named fields.  The
server uses two things the database offers: it finds the first document whose field
`id` is a given string, and it replaces fields of that document with `$set`, which
keeps every other field.
-/

namespace MmoBackend
namespace Db

open Authentication

/-- The value of a field. -/
inductive Bson where
  | utf8 (s : CString)
  | int32 (n : ℤ)
  /-- Any other type. -/
  | other
  deriving DecidableEq

/-- A document.  No name occurs twice. -/
structure Document where
  fields : List (String × Bson)
  nodup : (fields.map Prod.fst).Nodup

/-- `$set` of one field of a list of fields. -/
def setField (key : String) (value : Bson) : List (String × Bson) → List (String × Bson)
  | [] => [(key, value)]
  | f :: fields => if f.1 = key then (key, value) :: fields else f :: setField key value fields

theorem mem_keys_setField {key k : String} {value : Bson} {fields : List (String × Bson)} :
    k ∈ (setField key value fields).map Prod.fst ↔ k = key ∨ k ∈ fields.map Prod.fst := by
  induction fields with
  | nil => simp [setField]
  | cons f fields ih =>
    rw [setField]
    split
    · rename_i hf
      simp [hf]
    · rw [List.map_cons, List.mem_cons, ih, List.map_cons, List.mem_cons]
      exact or_left_comm

theorem nodup_setField (key : String) (value : Bson) {fields : List (String × Bson)}
    (h : (fields.map Prod.fst).Nodup) : ((setField key value fields).map Prod.fst).Nodup := by
  induction fields with
  | nil => exact List.nodup_singleton key
  | cons f fields ih =>
    rw [List.map_cons, List.nodup_cons] at h
    rw [setField]
    split
    · rename_i hf
      rw [List.map_cons, List.nodup_cons]
      exact ⟨hf ▸ h.1, h.2⟩
    · rename_i hf
      rw [List.map_cons, List.nodup_cons, mem_keys_setField]
      exact ⟨fun hmem => hmem.elim hf h.1, ih h.2⟩

namespace Document

/-- `$set` of one field. -/
def set (key : String) (value : Bson) (doc : Document) : Document :=
  ⟨setField key value doc.fields, nodup_setField key value doc.nodup⟩

/-- Whether the query `{id: id}` matches.  It is made of a string that ends at its first zero
byte. -/
def hasId (id : CString) (doc : Document) : Bool :=
  0 ∉ id ∧ doc.fields.lookup "id" = some (.utf8 id)

end Document

/-- The first document a query for an id returns. -/
def findById (id : CString) (playerdata : List Document) : Option Document :=
  playerdata.find? (Document.hasId id)

/-- Change the first document with an id. -/
def modifyById (id : CString) (f : Document → Document) : List Document → List Document
  | [] => []
  | doc :: docs => if doc.hasId id then f doc :: docs else doc :: modifyById id f docs

end Db
end MmoBackend
