import WriteBehind.FieldSet
import WriteBehind.Json.Printer
import WriteBehind.Key
import WriteBehind.Shape

/-!
# Record types

A record type fixes the namespace of its records, the layout of their data, the
fields whose changes are tracked, and how a key and a version are read off the
data.  A tracked field is plain, part of the key (then every write carries it)
or runtime state (then no write does).
-/

namespace WriteBehind

/-- What a tracked field is for. -/
inductive FieldRole where
  | plain
  | key
  | runtime
deriving DecidableEq, Repr

/-- A tracked field: its code and the column it tracks. -/
structure FieldDesc where
  code : Field
  name : String
  role : FieldRole := .plain
deriving DecidableEq, Repr

namespace FieldDesc

/-- Whether writes may carry the field. -/
def stored (d : FieldDesc) : Bool := d.role != .runtime

end FieldDesc

/-- The codes of the fields that writes may carry. -/
def persisted (fields : List FieldDesc) : Except Breach FieldSet :=
  FieldSet.ofCodes ((fields.filter (·.stored)).map (·.code))

/-- The document that a record's data is. -/
def toDocument (data : Json) : Except Error Document :=
  match data.document? with
  | some doc => .ok doc
  | none => .error (.custom s!"expected a document, got {data.compact}")

/-- A type of records. -/
structure RecordType where
  /-- The namespace, unique among the types in use. -/
  ns : String
  layout : Layout
  fields : List FieldDesc
  key : KeyForm
  /-- The column that holds the version of the data. -/
  version : Option String := none
  codes_lt : ∀ d ∈ fields, d.code < fieldCapacity := by decide
deriving DecidableEq

namespace RecordType

/-- The data that a JSON value holds. -/
def read (t : RecordType) (value : Json) : Except Error Json :=
  match t.layout.read value with
  | some data => .ok data
  | none => .error .malformedDocument

/-- The fields that writes may carry. -/
def persistedFields (t : RecordType) : FieldSet :=
  (t.fields.filter (·.stored)).foldl (fun s d => s.insert d.code) .empty

/-- The value of a named column, the data itself where there are no columns. -/
def column (t : RecordType) (data : Json) (name : String) : Json :=
  match t.layout with
  | .record _ => (data.field? name).getD .null
  | .bare _ => data

/-- The key of a record with this data. -/
def keyOf (t : RecordType) (data : Json) : Key where
  first := t.key.first.ofJson (t.column data t.key.first.name)
  rest := t.key.rest.map fun c => some (c.ofJson (t.column data c.name))

/-- The version of a record with this data, zero where none is kept. -/
def versionOf (t : RecordType) (data : Json) : UInt64 :=
  match t.version with
  | none => 0
  | some name =>
    match t.column data name with
    | .int n => UInt64.ofNat n.toNat
    | _ => 0

end RecordType

end WriteBehind
