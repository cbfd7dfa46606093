import WriteBehind.Error
import WriteBehind.Json.Basic

/-!
# Cursors over rows

A cursor walks over rows that a table has read.  It starts before the first row;
`Cursor.next` puts it on the next one.
-/

namespace WriteBehind

/-- A walk over rows: those ahead, and the one it stands on. -/
structure Cursor where
  pending : List Document
  current : Option Document := none

namespace Cursor

/-- A cursor before the first of some rows. -/
def ofRows (rows : List Document) : Cursor := { pending := rows }

/-- Moves to the next row and says whether there was one. -/
def next (c : Cursor) : Bool × Cursor :=
  match c.pending with
  | [] => (false, { pending := [] })
  | row :: rows => (true, { pending := rows, current := some row })

/-- The row that the cursor stands on. -/
def decode (c : Cursor) : Except Error Document :=
  match c.current with
  | some row => .ok row
  | none => .error (.notFound "cursor is not positioned on a row")

/-- The rows ahead.  Afterwards the cursor stands on none and has none ahead. -/
def all (c : Cursor) : List Document × Cursor := (c.pending, { pending := [] })

/-- A cursor without rows. -/
def close (_ : Cursor) : Cursor := { pending := [] }

variable {α : Type}

/-- The row that the cursor stands on, read by a function. -/
def decodeAs (read : Json → Except Error α) (c : Cursor) : Except Error α :=
  c.decode.bind fun row => read (.ofDocument row)

/-- The rows ahead, each read by a function; the first that cannot be read
decides. -/
def allAs (read : Json → Except Error α) (c : Cursor) : Except Error (List α) × Cursor :=
  let (rows, c) := c.all
  (rows.mapM fun row => read (.ofDocument row), c)

end Cursor

end WriteBehind
