import WriteBehind.RecordType
import WriteBehind.Wire

/-!
# Commitments

A commitment is a change of one record on its way to storage.  A `Snapshot`
carries the data of a record with what was pending when it was taken; a later
snapshot of the same key can be merged into it.  A `Foreign` commitment comes
from elsewhere: it has its write ready, or a reason why there is none, and stays
apart.  `Commitment.prepareWrite` gives the write that storage is asked for.
-/

namespace WriteBehind

/-- A change to the row of one key. -/
structure PreparedWrite where
  key : String
  lifecycle : Lifecycle
  /-- What rows of the key match. -/
  filter : Document
  data : Document

/-- The fields of a document that a write carries: those of the key and the
wanted others, no runtime field.  Without tracked fields it carries them all. -/
def project (doc : Document) (fields : List FieldDesc) (wanted : FieldDesc → Bool) :
    Document :=
  if fields.isEmpty then doc
  else
    SortedMap.ofList <| fields.filterMap fun d =>
      if d.stored && (d.role == .key || wanted d) then
        (doc.get? d.name).map fun value => (d.name, value)
      else none

/-- The state of a record at a moment. -/
structure Snapshot where
  type : RecordType
  key : Key
  pending : Pending
  version : UInt64
  data : Json

namespace Snapshot

/-- The state of a record with given data, what is pending included. -/
def capture (type : RecordType) (pending : Pending) (data : Json) : Snapshot where
  type
  key := type.keyOf data
  pending
  version := type.versionOf data
  data

/-- Whether a later snapshot can be merged into this one. -/
def absorbs (s later : Snapshot) : Bool :=
  s.type == later.type && s.key == later.key && (s.pending.merge later.pending).isSome

/-- Earlier and later snapshots of one key as one.  The data are the later ones,
except that a removal carries none. -/
def merge (s later : Snapshot) : Option Snapshot :=
  if s.type == later.type && s.key == later.key then
    (s.pending.merge later.pending).map fun pending =>
      { s with
        pending
        version := max s.version later.version
        data := if later.pending.lifecycle.isGone then s.data else later.data }
  else none

/-- The fields that a write of a snapshot carries: all of a new record, the
changed ones of a stored record, none of a record that is gone. -/
def writtenFields (s : Snapshot) : Except Error Document :=
  match s.pending.lifecycle with
  | .new => (toDocument s.data).map (project · s.type.fields fun _ => true)
  | .normal =>
    (toDocument s.data).map (project · s.type.fields fun d => s.pending.changes.mem d.code)
  | .deleted | .unavailable => .ok .empty

/-- The write of a snapshot. -/
def prepareWrite (s : Snapshot) : Except Error PreparedWrite :=
  s.writtenFields.map fun data =>
    { key := s.key.text, lifecycle := s.pending.lifecycle, filter := s.type.key.filter s.key, data }

/-- The wire form of a snapshot. -/
def marshal (s : Snapshot) : Wire.Bytes :=
  Wire.Message.write s.type.layout { pending := s.pending, version := s.version, data := s.data }

/-- The snapshot of a wire form.  Its key is read off its data. -/
def unmarshal (type : RecordType) (bytes : Wire.Bytes) : Except Error Snapshot :=
  match Wire.Message.read? type.layout bytes with
  | none => .error .malformedBytes
  | some (m, _) =>
    .ok {
      type
      key := type.keyOf m.data
      pending := m.pending
      version := m.version
      data := m.data }

/-- A snapshot as messages show it. -/
def debug (s : Snapshot) : String :=
  "Snapshot \x7b namespace: " ++ Text.quote s.type.ns ++ ", pk: " ++ s.type.key.debug s.key ++
    ", lifecycle: " ++ s.pending.lifecycle.name ++
    ", changes: " ++ s.pending.changes.text ++ " \x7d"

end Snapshot

/-- A change that was prepared elsewhere. -/
structure Foreign where
  ns : String
  keyText : String
  hash : UInt64
  filter : Document
  lifecycle : Lifecycle
  /-- The fields to write, or why there are none. -/
  outcome : Except Error Document

/-- A change of one record on its way to storage. -/
inductive Commitment where
  | snapshot (s : Snapshot)
  | foreign (f : Foreign)

namespace Commitment

/-- The namespace of the record. -/
def ns : Commitment → String
  | .snapshot s => s.type.ns
  | .foreign f => f.ns

/-- The text of the record's key. -/
def keyText : Commitment → String
  | .snapshot s => s.key.text
  | .foreign f => f.keyText

/-- The routing hash of the record's key. -/
def hash : Commitment → UInt64
  | .snapshot s => s.key.hash
  | .foreign f => f.hash

/-- The lifecycle that the change leads to or stays in. -/
def lifecycle : Commitment → Lifecycle
  | .snapshot s => s.pending.lifecycle
  | .foreign f => f.lifecycle

/-- The changed fields. -/
def changes : Commitment → FieldSet
  | .snapshot s => s.pending.changes
  | .foreign _ => .empty

/-- The version of the data. -/
def version : Commitment → UInt64
  | .snapshot s => s.version
  | .foreign _ => 0

/-- Whether a later commitment can be merged into this one. -/
def absorbs : Commitment → Commitment → Bool
  | .snapshot s, .snapshot later => s.absorbs later
  | _, _ => false

/-- Earlier and later commitments as one, if they are snapshots that merge. -/
def merge : Commitment → Commitment → Option Commitment
  | .snapshot s, .snapshot later => (s.merge later).map .snapshot
  | _, _ => none

/-- The write of a commitment. -/
def prepareWrite : Commitment → Except Error PreparedWrite
  | .snapshot s => s.prepareWrite
  | .foreign f => f.outcome.map fun data =>
    { key := f.keyText, lifecycle := f.lifecycle, filter := f.filter, data }

end Commitment

/-- The writes of the commitments that have one. -/
def prepareAll (commitments : List Commitment) : List PreparedWrite :=
  commitments.filterMap fun c => c.prepareWrite.toOption

/-! ## Merging and absorbing agree -/

theorem Snapshot.isSome_merge (s later : Snapshot) :
    (s.merge later).isSome = s.absorbs later := by
  by_cases h : (s.type == later.type && s.key == later.key) = true
  · simp [merge, absorbs, h]
  · simp [merge, absorbs, h]

theorem Commitment.isSome_merge (c later : Commitment) :
    (c.merge later).isSome = c.absorbs later := by
  cases c <;> cases later <;> simp [merge, absorbs, Snapshot.isSome_merge]

end WriteBehind
