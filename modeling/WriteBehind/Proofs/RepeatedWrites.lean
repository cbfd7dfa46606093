import Mathlib.Data.List.Induction
import Mathlib.Dynamics.FixedPoints.Basic
import WriteBehind.Proofs.TableWrites

/-!
# Writes that are applied a second time

Single writes may well do more the second time: a change that found no row is skipped,
and finds one if a later write of the list has put it.  What a whole list does to the row
of one key has only two forms (`Upshot`): it fixes the row, or it lays columns over it.
Doing either again changes nothing, as far as the columns of the list itself are
concerned.

The other columns of a row that is only changed are the point where tables differ.  A
table in memory keeps them.  A database file reads the row back from its text with every
change and writes it out again, and numbers need not come back as they were.
`Rows.Settles` says when this does no harm; `Rows.allThrough_twice_iff` that it says so
exactly, and `Storage.replay_twice_iff` what this means for tables.
-/

namespace WriteBehind

/-! ## Writes to rows that are read through a function -/

namespace Rows

/-- Rows after a write, if the row that is changed is read through a function. -/
def writeThrough (read : Json → Json) (rows : Rows) (w : PreparedWrite) : Rows :=
  rows.change w.key (rowChange ((rows.get? w.key).map (SortedMap.map read)) w)

/-- Rows after several such writes, one by one. -/
def allThrough (read : Json → Json) (rows : Rows) (ws : List PreparedWrite) : Rows :=
  ws.foldl (writeThrough read) rows

/-- The rows with every value read through a function. -/
def seenThrough (read : Json → Json) (rows : Rows) : Rows := rows.map (SortedMap.map read)

end Rows

theorem SortedMap.map_id {β : Type} (m : SortedMap β) : m.map id = m :=
  SortedMap.ext_get? fun key => by rw [SortedMap.get?_map, Option.map_id, id]

theorem Rows.seenThrough_id (rows : Rows) : rows.seenThrough id = rows := by
  have hrow : (SortedMap.map id : Document → Document) = id := funext SortedMap.map_id
  rw [seenThrough, hrow, SortedMap.map_id]

/-- A table in memory takes rows as they are. -/
theorem Rows.allThrough_id (rows : Rows) (ws : List PreparedWrite) :
    rows.allThrough id ws = rows.applyAll ws := by
  have hwrite : writeThrough id = applyWrite := by
    funext rows w
    have hread : (SortedMap.map id : Document → Document) = id := funext SortedMap.map_id
    rw [writeThrough, hread, Option.map_id]
    rfl
  rw [allThrough, hwrite, applyAll]

/-- A database file reads rows back from their text. -/
theorem FileStore.foldl_applyWrite_eq (rows : Rows) (ws : List PreparedWrite) :
    ws.foldl applyWrite rows = rows.allThrough Json.readBack ws := rfl

/-- What a write makes of the row of its key, read through a function. -/
def PreparedWrite.onRowThrough (read : Json → Json) (w : PreparedWrite)
    (row : Option Document) : Option Document :=
  match w.lifecycle with
  | .new => some w.data
  | .normal => row.map fun r => (r.map read).overlay w.data
  | .deleted => none
  | .unavailable => row

theorem Rows.get?_writeThrough (read : Json → Json) (rows : Rows) (w : PreparedWrite)
    (key : String) :
    (rows.writeThrough read w).get? key =
      if w.key = key then w.onRowThrough read (rows.get? key) else rows.get? key := by
  by_cases hkey : w.key = key
  · subst hkey
    rw [if_pos rfl]
    cases hl : w.lifecycle with
    | new | deleted | unavailable =>
        simp [writeThrough, rowChange, change, PreparedWrite.onRowThrough, hl]
    | normal =>
        cases hrow : rows.get? w.key with
        | none => simp [writeThrough, rowChange, change, PreparedWrite.onRowThrough, hl, hrow]
        | some row => simp [writeThrough, rowChange, change, PreparedWrite.onRowThrough, hl, hrow]
  · rw [if_neg hkey, writeThrough]
    cases rowChange ((rows.get? w.key).map (SortedMap.map read)) w with
    | put row => simp [change, hkey]
    | remove => simp [change, hkey]
    | skip => rfl

/-! ## What a list of writes does to one row -/

/-- What a list of writes does to the row of a key: it leaves a given row, whatever the
row was, or it has changed the row so many times, and laid columns over it. -/
inductive Upshot where
  | fixed (row : Option Document)
  | laid (changes : Nat) (columns : Document)

namespace Upshot

/-- The row that is left. -/
def apply (read : Json → Json) : Upshot → Option Document → Option Document
  | fixed row, _ => row
  | laid n columns, row => row.map fun r => (r.map read^[n]).overlay columns

/-- The upshot with one more write. -/
def write (read : Json → Json) (u : Upshot) (w : PreparedWrite) : Upshot :=
  match w.lifecycle, u with
  | .new, _ => .fixed (some w.data)
  | .deleted, _ => .fixed none
  | .unavailable, u => u
  | .normal, .fixed row => .fixed (row.map fun r => (r.map read).overlay w.data)
  | .normal, .laid n columns => .laid (n + 1) ((columns.map read).overlay w.data)

/-- The upshot of writes for a key. -/
def of (read : Json → Json) (key : String) (ws : List PreparedWrite) : Upshot :=
  ws.foldl (fun u w => if w.key = key then u.write read w else u) (.laid 0 .empty)

variable {read : Json → Json} {key : String}

theorem of_concat (ws : List PreparedWrite) (w : PreparedWrite) :
    of read key (ws ++ [w]) =
      if w.key = key then (of read key ws).write read w else of read key ws := by
  rw [of, List.foldl_append]
  rfl

theorem apply_empty (row : Option Document) : (laid 0 .empty).apply read row = row := by
  cases row with
  | none => rfl
  | some r =>
      refine congrArg some (SortedMap.ext_get? fun name => ?_)
      simp

theorem apply_write (u : Upshot) (w : PreparedWrite) (row : Option Document) :
    (u.write read w).apply read row = w.onRowThrough read (u.apply read row) := by
  cases hl : w.lifecycle with
  | new | deleted => simp [write, PreparedWrite.onRowThrough, hl, apply]
  | unavailable => simp [write, PreparedWrite.onRowThrough, hl]
  | normal =>
      cases u with
      | fixed row' => simp [write, PreparedWrite.onRowThrough, hl, apply]
      | laid n columns =>
          cases row with
          | none => simp [write, PreparedWrite.onRowThrough, hl, apply]
          | some r =>
              simp only [write, PreparedWrite.onRowThrough, hl, apply, Option.map_some]
              refine congrArg some (SortedMap.ext_get? fun name => ?_)
              simp only [SortedMap.get?_overlay, SortedMap.get?_map, Option.or_assoc,
                Option.map_or, Option.map_map, Function.iterate_succ']

end Upshot

/-- Seen from one key, a list of writes does what its upshot says. -/
theorem Rows.get?_allThrough (read : Json → Json) (rows : Rows) (ws : List PreparedWrite)
    (key : String) :
    (rows.allThrough read ws).get? key = (Upshot.of read key ws).apply read (rows.get? key) := by
  induction ws using List.reverseRecOn with
  | nil => exact (Upshot.apply_empty _).symm
  | append_singleton ws w ih =>
      have hlast : rows.allThrough read (ws ++ [w]) = (rows.allThrough read ws).writeThrough read w := by
        rw [allThrough, List.foldl_append]
        rfl
      rw [hlast, get?_writeThrough, Upshot.of_concat, ih]
      split
      · rw [Upshot.apply_write]
      · rfl

/-- Whether a write changes the row of a key. -/
def PreparedWrite.changes (w : PreparedWrite) (key : String) : Bool :=
  w.key == key && w.lifecycle == .normal

/-- Whether a write leaves a row of a key, or none, whatever was there. -/
def PreparedWrite.replaces (w : PreparedWrite) (key : String) : Bool :=
  w.key == key && (w.lifecycle == .new || w.lifecycle == .deleted)

/-- A list that replaces the row of a key fixes it.  Another one has changed the row with
each of its changes, and laid over it the columns that they carry. -/
theorem Upshot.of_cases (read : Json → Json) (key : String) (ws : List PreparedWrite) :
    (ws.any (·.replaces key) = true ∧ ∃ row, of read key ws = .fixed row) ∨
    (ws.any (·.replaces key) = false ∧
      ∃ columns, of read key ws = .laid (ws.countP (·.changes key)) columns ∧
        ∀ name, columns.get? name = none ↔
          ∀ w ∈ ws, w.changes key = true → w.data.get? name = none) := by
  induction ws using List.reverseRecOn with
  | nil => exact .inr ⟨rfl, .empty, rfl, by simp⟩
  | append_singleton ws w ih =>
      rw [of_concat, List.any_append, List.countP_append]
      by_cases hkey : w.key = key
      · rw [if_pos hkey]
        cases hl : w.lifecycle with
        | new | deleted =>
            left
            exact ⟨by simp [PreparedWrite.replaces, hkey, hl], by simp [write, hl]⟩
        | unavailable =>
            have hreplaces : w.replaces key = false := by simp [PreparedWrite.replaces, hl]
            have hchanges : w.changes key = false := by simp [PreparedWrite.changes, hl]
            simpa [write, hl, hreplaces, hchanges, or_imp, forall_and] using ih
        | normal =>
            have hreplaces : w.replaces key = false := by simp [PreparedWrite.replaces, hl]
            have hchanges : w.changes key = true := by simp [PreparedWrite.changes, hkey, hl]
            rcases ih with ⟨hany, row, hof⟩ | ⟨hany, columns, hof, hcolumns⟩
            · left
              exact ⟨by simp [hany], by simp [write, hl, hof]⟩
            · right
              refine ⟨by simp [hany, hreplaces], (columns.map read).overlay w.data, ?_, ?_⟩
              · simp [write, hl, hof, hchanges]
              · intro name
                rw [SortedMap.get?_overlay, SortedMap.get?_map, Option.or_eq_none_iff,
                  Option.map_eq_none_iff, hcolumns name]
                simp only [List.mem_append, List.mem_singleton, or_imp, forall_and, forall_eq,
                  hchanges, forall_const]
                exact and_comm
      · have hreplaces : w.replaces key = false := by simp [PreparedWrite.replaces, hkey]
        have hchanges : w.changes key = false := by simp [PreparedWrite.changes, hkey]
        rw [if_neg hkey]
        simpa [hreplaces, hchanges, or_imp, forall_and] using ih

/-! ## The second time -/

/-- Whether writes leave rows as they are when they are applied once more, seen through a
number of further reads: in a row that is only changed, the columns that no change
carries stay what they are through as many reads as there are changes. -/
def Rows.Settles (read : Json → Json) (seen : Nat) (rows : Rows) (ws : List PreparedWrite) :
    Prop :=
  ∀ key row name v, rows.get? key = some row → row.get? name = some v →
    ws.any (·.replaces key) = false →
    (∀ w ∈ ws, w.changes key = true → w.data.get? name = none) →
    read^[seen + 2 * ws.countP (·.changes key)] v = read^[seen + ws.countP (·.changes key)] v

/-- One column of a row over which columns are laid twice. -/
theorem Upshot.column_twice_iff (read : Json → Json) (seen n : Nat) (column value : Option Json) :
    (column.or ((column.or (value.map read^[n])).map read^[n])).map read^[seen] =
        (column.or (value.map read^[n])).map read^[seen] ↔
      ∀ v, value = some v → column = none → read^[seen + 2 * n] v = read^[seen + n] v := by
  cases column with
  | some w => simp
  | none =>
      cases value with
      | none => simp
      | some v =>
          have hsum : seen + 2 * n = seen + (n + n) := by omega
          simp [hsum, Function.iterate_add_apply]

theorem Upshot.laid_twice_iff (read : Json → Json) (seen n : Nat) (columns row : Document) :
    ((((laid n columns).apply read ((laid n columns).apply read (some row))).map
          (SortedMap.map read^[seen])) =
        (((laid n columns).apply read (some row)).map (SortedMap.map read^[seen]))) ↔
      ∀ name v, row.get? name = some v → columns.get? name = none →
        read^[seen + 2 * n] v = read^[seen + n] v := by
  simp only [apply, Option.map_some, Option.some.injEq]
  constructor
  · intro heq name
    have hcolumn := congrArg (SortedMap.get? · name) heq
    simp only [SortedMap.get?_map, SortedMap.get?_overlay] at hcolumn
    exact (column_twice_iff read seen n _ _).mp hcolumn
  · intro h
    refine SortedMap.ext_get? fun name => ?_
    simp only [SortedMap.get?_map, SortedMap.get?_overlay]
    exact (column_twice_iff read seen n _ _).mpr (h name)

/-- Applying writes again to what they have made changes nothing that can be seen exactly
if they settle the rows. -/
theorem Rows.allThrough_twice_iff (read : Json → Json) (seen : Nat) (rows : Rows)
    (ws : List PreparedWrite) :
    ((rows.allThrough read ws).allThrough read ws).seenThrough read^[seen] =
        (rows.allThrough read ws).seenThrough read^[seen] ↔
      rows.Settles read seen ws := by
  have hkey : ∀ key,
      (((rows.allThrough read ws).allThrough read ws).seenThrough read^[seen]).get? key =
          ((rows.allThrough read ws).seenThrough read^[seen]).get? key ↔
        ∀ row name v, rows.get? key = some row → row.get? name = some v →
          ws.any (·.replaces key) = false →
          (∀ w ∈ ws, w.changes key = true → w.data.get? name = none) →
          read^[seen + 2 * ws.countP (·.changes key)] v =
            read^[seen + ws.countP (·.changes key)] v := by
    intro key
    rw [seenThrough, seenThrough, SortedMap.get?_map, SortedMap.get?_map, get?_allThrough,
      get?_allThrough]
    rcases Upshot.of_cases read key ws with ⟨hany, row, hof⟩ | ⟨hany, columns, hof, hcolumns⟩
    · simp [hof, Upshot.apply, hany]
    · rw [hof]
      cases hrow : rows.get? key with
      | none => simp [Upshot.apply]
      | some row =>
          rw [Upshot.laid_twice_iff]
          constructor
          · rintro h row' name v hrow' hv - hnone
            obtain rfl := Option.some.inj hrow'
            exact h name v hv ((hcolumns name).mpr hnone)
          · intro h name v hv hnone
            exact h row name v rfl hv hany ((hcolumns name).mp hnone)
  constructor
  · intro heq key
    exact (hkey key).mp (congrArg (SortedMap.get? · key) heq)
  · intro h
    exact SortedMap.ext_get? fun key => (hkey key).mpr (h key)

/-- Rows in memory settle whatever is written. -/
theorem Rows.settles_id (seen : Nat) (rows : Rows) (ws : List PreparedWrite) :
    rows.Settles id seen ws := by
  intro key row name v _ _ _ _
  simp only [Function.iterate_id, id]

/-- Writes that are applied again to the rows that they have made do nothing. -/
theorem Rows.applyAll_twice (rows : Rows) (ws : List PreparedWrite) :
    (rows.applyAll ws).applyAll ws = rows.applyAll ws := by
  have h := (allThrough_twice_iff id 0 rows ws).mpr (settles_id 0 rows ws)
  rwa [allThrough_id, allThrough_id, Function.iterate_zero, seenThrough_id, seenThrough_id] at h

/-! ## Recovery of what has reached a table -/

/-- A table in memory whose rows commitments have made keeps them when it recovers these. -/
theorem MemoryTable.rows_recover_of_taken {t : MemoryTable} {rows : Rows}
    {cs : List Commitment} (h : t.rows = rows.applyAll (prepareAll cs)) :
    (t.recover cs).2.rows = t.rows := by
  cases hbudget : t.failBudget with
  | zero =>
      rw [recover_of_no_budget hbudget]
      change t.rows.applyAll (prepareAll cs) = t.rows
      rw [h, Rows.applyAll_twice]
  | succ budget => simp [recover, apply, hbudget]

namespace Storage

variable {s : Storage} {table : TableRef} {cs : List Commitment}

theorem rows_of_memoryTable? {t : MemoryTable} (h : s.memoryTable? table = some t) :
    s.rows table = t.rows := by
  cases table with
  | none | file path name => cases h
  | memory ns | audited ns => simp [rows, h]

theorem rows_withMemoryTable_recover
    (h : ∀ t, s.memoryTable? table = some t → ∃ rows : Rows, t.rows = rows.applyAll (prepareAll cs)) :
    (s.withMemoryTable table (.ok ()) fun t => t.recover cs).2.rows table = s.rows table := by
  cases ht : s.memoryTable? table with
  | none => rw [withMemoryTable_of_none ht]
  | some t =>
      obtain ⟨-, hafter⟩ := memoryTable?_withMemoryTable ht (.ok ()) fun t => t.recover cs
      obtain ⟨rows, hrows⟩ := h t ht
      rw [rows_of_memoryTable? hafter, rows_of_memoryTable? ht,
        MemoryTable.rows_recover_of_taken hrows]

/-- The rows of a table in memory after it has taken commitments. -/
theorem taken_of_saved {answers : Nat → Bool}
    (hsaved : (s.withMemoryTable table true fun t => t.save answers cs).1 = true) {t : MemoryTable}
    (ht : (s.withMemoryTable table true fun t => t.save answers cs).2.memoryTable? table = some t) :
    ∃ rows : Rows, t.rows = rows.applyAll (prepareAll cs) := by
  cases hbefore : s.memoryTable? table with
  | none =>
      rw [withMemoryTable_of_none hbefore, hbefore] at ht
      cases ht
  | some t₀ =>
      obtain ⟨hok, hafter⟩ := memoryTable?_withMemoryTable hbefore true fun t => t.save answers cs
      obtain rfl : (t₀.save answers cs).2 = t := Option.some.inj (hafter.symm.trans ht)
      rcases t₀.save_cases answers cs with ⟨-, hrows⟩ | ⟨hrefused, -⟩
      · exact ⟨t₀.rows, hrows⟩
      · rw [hsaved, hrefused] at hok
        cases hok

theorem written_writeFile_eq (s : Storage) (path name : String) (cs : List Commitment) :
    (s.writeFile path name cs).files.written path name =
      (s.files.written path name).allThrough Json.readBack (prepareAll cs) := by
  rw [← FileStore.foldl_applyWrite_eq]
  simp [writeFile, FileStore.write, FileStore.written]

/-- A table in memory that has taken commitments keeps its rows when it recovers them. -/
theorem rows_recover_of_saved (answers : Nat → Bool) (hfile : ∀ path name, table ≠ .file path name)
    (hsaved : (saveWhile answers table cs s).1 = true) :
    (recover table cs (saveWhile answers table cs s).2).2.rows table =
      (saveWhile answers table cs s).2.rows table := by
  cases table with
  | none => rfl
  | file path name => exact absurd rfl (hfile path name)
  | memory ns => exact rows_withMemoryTable_recover fun t ht => taken_of_saved hsaved ht
  | audited ns =>
      have hasked := content_askTable (saveWhile answers (.audited ns) cs s).2 (.audited ns)
        (.audited ns) (.recover cs.length)
      rw [recover, ← rows_congr hasked]
      cases hask : (saveWhile answers (.audited ns) cs s).2.askTable (.audited ns)
          (.recover cs.length) with
      | mk result s' =>
          rw [hask] at hasked
          cases result with
          | error e => rfl
          | ok u =>
              refine rows_withMemoryTable_recover fun t ht => taken_of_saved hsaved ?_
              rw [← ht]
              exact (congrArg Prod.fst hasked).symm

/-- Replay is idempotent, but for what text does to numbers.  Rows in memory keep whatever
writes have made of them when the same writes are applied again.  The rows of a database
file do so exactly if the writes settle them.  So recovering commitments that have reached
a table is harmless to one in memory, and to one in a file exactly if the rows that it had
before settle as they read back. -/
theorem replay_twice_iff (rows : Rows) (ws : List PreparedWrite) (answers : Nat → Bool)
    (table : TableRef) (cs : List Commitment) (s : Storage) :
    (rows.applyAll ws).applyAll ws = rows.applyAll ws ∧
    (ws.foldl FileStore.applyWrite (ws.foldl FileStore.applyWrite rows) =
        ws.foldl FileStore.applyWrite rows ↔ rows.Settles Json.readBack 0 ws) ∧
    ((saveWhile answers table cs s).1 = true →
      ((recover table cs (saveWhile answers table cs s).2).2.rows table =
          (saveWhile answers table cs s).2.rows table ↔
        ∀ path name, table = .file path name →
          (s.files.written path name).Settles Json.readBack 1 (prepareAll cs))) := by
  refine ⟨Rows.applyAll_twice rows ws, ?_, fun hsaved => ?_⟩
  · have h := Rows.allThrough_twice_iff Json.readBack 0 rows ws
    rwa [Function.iterate_zero, Rows.seenThrough_id, Rows.seenThrough_id] at h
  · by_cases hfile : ∃ path name, table = .file path name
    · obtain ⟨path, name, rfl⟩ := hfile
      have h := Rows.allThrough_twice_iff Json.readBack 1 (s.files.written path name) (prepareAll cs)
      rw [Function.iterate_one, ← written_writeFile_eq, ← written_writeFile_eq] at h
      constructor
      · rintro heq path' name' htable
        obtain ⟨rfl, rfl⟩ := TableRef.file.inj htable
        exact h.mp heq
      · intro hsettles
        exact h.mpr (hsettles path name rfl)
    · have hmemory : ∀ path name, table ≠ .file path name :=
        fun path name htable => hfile ⟨path, name, htable⟩
      refine ⟨fun _ path name htable => absurd htable (hmemory path name), fun _ => ?_⟩
      exact rows_recover_of_saved answers hmemory hsaved

end Storage

namespace Sample

/-- The number of a column that holds one, by its bits. -/
def bitsAt (rows : Rows) (key name : String) : Option UInt64 :=
  match (rows.get? key).bind (·.get? name) with
  | some (.float x) => some x.bits
  | _ => none

/-- A row with what is read for ten to the power of minus 24. -/
def rated : Document := .ofList [("x", .float ⟨4247835366853742248⟩)]

/-- A change that says nothing about that number. -/
def rerated : Foreign where
  ns := "raw"
  keyText := "1"
  hash := 0
  filter := .empty
  lifecycle := .normal
  outcome := .ok (.ofList [("y", .int 1)])

/-- A table in a database file with that row. -/
def ratedTable : TableRef := .file "/work/db" "notes"

def ratedFile : Storage where
  files := {
    files := SortedMap.empty.insert "/work/db"
      (SortedMap.empty.insert "notes" (SortedMap.empty.insert "1" rated)) }

/-- The number reads back as its neighbour, and that one as the number. -/
theorem exists_unsettled :
    ∃ (rows : Rows) (ws : List PreparedWrite),
      ws.foldl FileStore.applyWrite (ws.foldl FileStore.applyWrite rows) ≠
        ws.foldl FileStore.applyWrite rows ∧
      (ws.foldl FileStore.applyWrite (ws.foldl FileStore.applyWrite rows)).seenThrough
          Json.readBack ≠
        (ws.foldl FileStore.applyWrite rows).seenThrough Json.readBack := by
  refine ⟨SortedMap.empty.insert "1" rated, prepareAll [.foreign rerated], ?_, ?_⟩
  · intro heq
    exact absurd (congrArg (bitsAt · "1" "x") heq) (by decide +kernel)
  · intro heq
    exact absurd (congrArg (bitsAt · "1" "x") heq) (by decide +kernel)

theorem recovered_twice_ratedFile :
    (Storage.saveWhile (fun _ => true) ratedTable [.foreign rerated] ratedFile).1 = true ∧
      (Storage.recover ratedTable [.foreign rerated]
          (Storage.saveWhile (fun _ => true) ratedTable [.foreign rerated] ratedFile).2).2.rows
          ratedTable ≠
        (Storage.saveWhile (fun _ => true) ratedTable [.foreign rerated] ratedFile).2.rows
          ratedTable := by
  refine ⟨rfl, fun heq => ?_⟩
  have hiff := (Storage.replay_twice_iff .empty [] (fun _ => true) ratedTable
    [.foreign rerated] ratedFile).2.2 rfl
  have hsettles := hiff.mp heq "/work/db" "notes" rfl
  have hcolumn := hsettles "1" rated "x" (.float ⟨4247835366853742248⟩) rfl rfl rfl
    (by
      intro w hw _
      obtain rfl := List.mem_singleton.mp hw
      rfl)
  have hbits := congrArg (fun v => bitsAt (SortedMap.empty.insert "1" (.ofList [("x", v)])) "1" "x")
    hcolumn
  exact absurd hbits (by decide +kernel)

end Sample

end WriteBehind
