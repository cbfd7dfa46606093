import WriteBehind.Json.Basic

/-!
# Shapes of record data

The data of a record is a JSON value of a fixed shape.  A shape says which
values are admitted in a column and which value stands in for a missing one.
The shape of the whole data is its `Layout`: an object with fixed columns or one
bare value.  Reading a document into a layout keeps the columns and drops all
else.  There are no columns of floats, of nested objects or of maps: rows may hold
such values, under names that are no columns of the data.
-/

namespace WriteBehind

/-- The shape of a value inside a record. -/
inductive Shape where
  | int64
  | int32
  | uint64
  | bool
  | text
  | list (item : Shape)
deriving DecidableEq, Repr

namespace Shape

/-- Whether a value has a shape. -/
def admits : Shape → Json → Bool
  | .int64, .int n => -0x8000000000000000 ≤ n && n < 0x8000000000000000
  | .int32, .int n => -0x80000000 ≤ n && n < 0x80000000
  | .uint64, .int n => 0 ≤ n && n < 0x10000000000000000
  | .bool, .bool _ => true
  | .text, .str _ => true
  | .list item, .arr items => items.all item.admits
  | _, _ => false

/-- The value of a shape that carries no information. -/
def blank : Shape → Json
  | .int64 | .int32 | .uint64 => .int 0
  | .bool => .bool false
  | .text => .str ""
  | .list _ => .arr []

/-- What stands in for a missing value has its shape. -/
theorem admits_blank (s : Shape) : s.admits s.blank = true := by
  cases s <;> simp [admits, blank]

end Shape

/-- What it means that a document lacks a column. -/
inductive Presence where
  /-- It is no document of the layout. -/
  | required
  /-- The column is blank. -/
  | defaulted
  /-- The column is null, which a document may also say. -/
  | optional
deriving DecidableEq, Repr

/-- A named column of a record's data. -/
structure Column where
  name : String
  shape : Shape
  presence : Presence := .required
deriving DecidableEq, Repr

namespace Column

/-- Whether a column may have a value. -/
def admits (c : Column) (value : Json) : Bool :=
  match c.presence, value with
  | .optional, .null => true
  | _, value => c.shape.admits value

/-- The value of a column that a document lacks. -/
def absent (c : Column) : Option Json :=
  match c.presence with
  | .required => none
  | .defaulted => some c.shape.blank
  | .optional => some .null

/-- The value of a column in a document. -/
def read (c : Column) (doc : Document) : Option Json :=
  match doc.get? c.name with
  | some value => if c.admits value then some value else none
  | none => c.absent

theorem admits_of_read {c : Column} {doc : Document} {value : Json}
    (h : c.read doc = some value) : c.admits value = true := by
  rw [read] at h
  split at h
  · split at h
    next hv => cases h; exact hv
    · cases h
  · cases hp : c.presence <;> simp only [absent, hp] at h <;> cases h
    · simp [admits, hp, Shape.admits_blank]
    · simp [admits, hp]

end Column

/-- The shape of a record's data. -/
inductive Layout where
  /-- An object with these columns. -/
  | record (columns : List Column)
  /-- One value. -/
  | bare (shape : Shape)
deriving DecidableEq, Repr

namespace Layout

/-- The columns of an object layout read from a document. -/
def readColumns (doc : Document) : List Column → Option (List (String × Json))
  | [] => some []
  | c :: columns =>
    match c.read doc, readColumns doc columns with
    | some value, some rest => some ((c.name, value) :: rest)
    | _, _ => none

/-- The data that a JSON value holds.  Unknown fields of an object are dropped. -/
def read (layout : Layout) (value : Json) : Option Json :=
  match layout with
  | .bare shape => if shape.admits value then some value else none
  | .record columns => (value.document?.bind (readColumns · columns)).map Json.mkObj

end Layout

end WriteBehind
