import WriteBehind.Memo
import WriteBehind.Retry
import WriteBehind.Rows

/-!
# Tables in memory

A table in memory counts what it is asked for and can be told to refuse a number
of attempts, which makes it a measure for those who write to it.  All tables of
a store are shared by those who open it, one per namespace.
-/

namespace WriteBehind

/-- A table in memory. -/
structure MemoryTable where
  name : String
  rows : Rows := .empty
  /-- How often commitments were handed over. -/
  saves : Nat := 0
  /-- How many rows were put or removed. -/
  written : Nat := 0
  /-- How many of the next attempts are refused. -/
  failBudget : Nat := 0
  /-- How many attempts were refused. -/
  failures : Nat := 0

namespace MemoryTable

/-- One attempt at some writes: all of them or, if it is refused, none. -/
def apply (t : MemoryTable) (writes : List PreparedWrite) : Except Error Unit × MemoryTable :=
  match t.failBudget with
  | budget + 1 =>
    (.error (.custom s!"{t.name} refused the write"),
      { t with failBudget := budget, failures := t.failures + 1 })
  | 0 =>
    (.ok (), { t with
      rows := t.rows.applyAll writes
      written := t.written + t.rows.countWritten writes })

/-- Takes commitments over after a crash, in one attempt. -/
def recover (t : MemoryTable) (commitments : List Commitment) : Except Error Unit × MemoryTable :=
  t.apply (prepareAll commitments)

/-- Attempts at some writes.  After the `k`-th failure another one is made if
`answers k` holds; the refusals left bound their number. -/
def attempts (answers : Nat → Bool) (writes : List PreparedWrite) (t : MemoryTable) :
    Option (Except Error Unit × MemoryTable × Nat) :=
  retryWhile (fun (t, asked) =>
      let (result, t) := apply t writes
      (result, (t, asked)))
    (fun (t, asked) => (answers asked, (t, asked + 1)))
    (t.failBudget + 1) (t, 0)

/-- Takes commitments, as long as the answers allow it, and says whether it did. -/
def save (answers : Nat → Bool) (t : MemoryTable) (commitments : List Commitment) :
    Bool × MemoryTable :=
  let t := { t with saves := t.saves + 1 }
  match t.attempts answers (prepareAll commitments) with
  | some (.ok _, t, _) => (true, t)
  | some (.error _, t, _) => (false, t)
  | none => (false, t)

/-- Refuses a number of attempts. -/
def failNext (t : MemoryTable) (n : Nat) : MemoryTable := { t with failBudget := n }

end MemoryTable

/-- The tables in memory, by namespace, and how often the store was used. -/
structure MemoryStore where
  tables : Memo MemoryTable := .empty
  /-- How often the driver was initialised. -/
  inits : Nat := 0
  /-- How often the store was opened. -/
  daos : Nat := 0

namespace MemoryStore

/-- The table of a namespace, made under a name if there is none yet. -/
def openTable (m : MemoryStore) (ns name : String) : MemoryStore :=
  let create : Unit → Except Error MemoryTable × Unit := fun s => (.ok { name }, s)
  { m with tables := (Memo.getOrCreate m.tables ns create ()).2.1 }

/-- A store with the table of a namespace changed, and what the change gives. -/
def withTable {α : Type} (m : MemoryStore) (ns : String) (absent : α)
    (f : MemoryTable → α × MemoryTable) : α × MemoryStore :=
  match m.tables.get? ns with
  | none => (absent, m)
  | some t =>
    let (a, t) := f t
    (a, { m with tables := m.tables.insert ns t })

/-- Opens the store.  Its options must be an object. -/
def openDao (m : MemoryStore) (options : Json) : Except Error Unit × MemoryStore :=
  if options.isObject then (.ok (), { m with daos := m.daos + 1 })
  else (.error (.custom s!"memory dao options must be a map, got {options.compact}"), m)

end MemoryStore

end WriteBehind
