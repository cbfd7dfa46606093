import WriteBehind.Commitment

/-!
# Rows of a table

A table keeps a document per key text.  A write of a new record replaces the
row, one of a changed record is laid over the row that is there, a removal takes
the row away.  Changes to a row that is missing, and writes of records that
never came to be, are passed over.
-/

namespace WriteBehind

/-- The rows of a table by key text. -/
abbrev Rows := SortedMap Document

/-- What a write does to a row. -/
inductive RowChange where
  | put (row : Document)
  | remove
  | skip

/-- What a write does to the row that is there. -/
def rowChange (existing : Option Document) (write : PreparedWrite) : RowChange :=
  match write.lifecycle with
  | .new => .put write.data
  | .normal =>
    match existing with
    | some row => .put (row.overlay write.data)
    | none => .skip
  | .deleted => .remove
  | .unavailable => .skip

/-- Whether a change counts as written. -/
def RowChange.counts : RowChange → Bool
  | .put _ | .remove => true
  | .skip => false

/-- Whether a row has the fields of a filter. -/
def rowMatches (row filter : Document) : Bool :=
  filter.entries.all fun (name, value) =>
    match row.get? name with
    | some found => found.same value
    | none => false

namespace Rows

/-- Rows after one change. -/
def change (rows : Rows) (key : String) : RowChange → Rows
  | .put row => rows.insert key row
  | .remove => rows.erase key
  | .skip => rows

/-- Rows after a write. -/
def applyWrite (rows : Rows) (write : PreparedWrite) : Rows :=
  rows.change write.key (rowChange (rows.get? write.key) write)

/-- Rows after several writes, one by one. -/
def applyAll (rows : Rows) (writes : List PreparedWrite) : Rows :=
  writes.foldl applyWrite rows

/-- The number of writes that count, applied one by one. -/
def countWritten (rows : Rows) : List PreparedWrite → Nat
  | [] => 0
  | write :: writes =>
    (if (rowChange (rows.get? write.key) write).counts then 1 else 0) +
      (rows.applyWrite write).countWritten writes

/-- The rows of some keys, in the order asked for. -/
def select (rows : Rows) (keys : List String) : List Document :=
  keys.filterMap rows.get?

/-- The rows that match a filter, in the order of their keys. -/
def find (rows : Rows) (filter : Document) : List Document :=
  rows.values.filter (rowMatches · filter)

end Rows

end WriteBehind
