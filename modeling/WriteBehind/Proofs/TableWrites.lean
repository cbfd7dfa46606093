import WriteBehind.Storage
import WriteBehind.Proofs.Delivery

/-!
# Writes to the tables of a storage

A table is ready if it refuses no attempt and its rows read back from their text as
they were written.  A ready table takes whatever it is given (`Storage.takes_save`):
data of a record type hold no floating-point numbers, so text keeps them.  What a
table reference leads to is its `Storage.content`; reads do not change it, and
neither do writes to other tables.
-/

namespace WriteBehind

/-! ## Values that text keeps -/

namespace Json

theorem mapItems_eq_self {f : Json → Json} {items : List Json}
    (h : ∀ v ∈ items, v.mapLeaves f = v) :
    mapItems f items = items := by
  induction items with
  | nil => rfl
  | cons v rest ih =>
      rw [mapItems, h v List.mem_cons_self, ih fun u hu => h u (List.mem_cons_of_mem v hu)]

end Json

theorem Shape.readBack_of_admits {s : Shape} {v : Json} (h : s.admits v = true) :
    v.readBack = v := by
  induction s generalizing v with
  | int64 | int32 | uint64 | bool | text =>
      cases v with
      | float x => simp [admits] at h
      | arr items => simp [admits] at h
      | obj fields => simp [admits] at h
      | null | bool b | int n | str s => rfl
  | list item ih =>
      cases v with
      | arr items =>
          have hitems : ∀ v ∈ items, v.readBack = v := by
            intro v hv
            simp only [admits, List.all_eq_true] at h
            exact ih (h v hv)
          exact congrArg Json.arr (Json.mapItems_eq_self hitems)
      | null | bool b | int n | float x | str s | obj fields => simp [admits] at h

theorem Column.readBack_of_admits {c : Column} {v : Json} (h : c.admits v = true) :
    v.readBack = v := by
  by_cases hnull : c.presence = .optional ∧ v = .null
  · rw [hnull.2]
    rfl
  · have hshape : c.shape.admits v = true := by
      cases hp : c.presence with
      | required | defaulted => simpa [admits, hp] using h
      | optional =>
          have hne : v ≠ .null := fun hv => hnull ⟨hp, hv⟩
          cases v with
          | null => exact absurd rfl hne
          | bool _ | int _ | float _ | str _ | arr _ | obj _ => simpa [admits, hp] using h
    exact Shape.readBack_of_admits hshape

/-- Data of a record type read back from text as they are. -/
theorem RecordType.Holds.readBack_field {t : RecordType} {data : Json} (h : t.Holds data)
    {name : String} {v : Json} (hv : data.field? name = some v) : v.readBack = v := by
  obtain ⟨value, hread⟩ := h
  cases hl : t.layout with
  | record columns =>
      rw [hl, Layout.read, Option.map_eq_some_iff] at hread
      obtain ⟨values, hvalues, rfl⟩ := hread
      rw [Option.bind_eq_some_iff] at hvalues
      obtain ⟨doc, -, hcolumns⟩ := hvalues
      have hfind : SortedMap.find? name values.reverse = some v := by
        rw [← SortedMap.get?_ofList]
        exact hv
      have hmem := List.mem_reverse.mp (SortedMap.mem_of_find? hfind)
      obtain ⟨c, -, -, hc⟩ := Layout.read_of_mem_readColumns hcolumns hmem
      exact Column.readBack_of_admits (Column.admits_of_read hc)
  | bare shape =>
      rw [hl, Layout.read] at hread
      split at hread
      next hadmits =>
        obtain rfl : value = data := Option.some.inj hread
        cases value with
        | obj fields => cases shape <;> simp [Shape.admits] at hadmits
        | null | bool _ | int _ | float _ | str _ | arr _ => simp [Json.field?] at hv
      · cases hread

/-- A document that text keeps. -/
def Document.Plain (d : Document) : Prop := ∀ name v, d.get? name = some v → v.readBack = v

namespace Document

theorem Plain.readBack {d : Document} (h : Plain d) : readBack d = d := by
  refine SortedMap.ext_get? fun name => ?_
  rw [Document.readBack, SortedMap.get?_map]
  cases hv : d.get? name with
  | none => rfl
  | some v => exact congrArg some (h name v hv)

theorem Plain.overlay {d e : Document} (hd : Plain d) (he : Plain e) : Plain (d.overlay e) := by
  intro name v hv
  rw [SortedMap.get?_overlay] at hv
  rcases Option.or_eq_some_iff.mp hv with hv | ⟨-, hv⟩
  · exact he name v hv
  · exact hd name v hv

theorem Plain.project {d : Document} (h : Plain d) (fields : List FieldDesc)
    (wanted : FieldDesc → Bool) : Plain (project d fields wanted) := by
  intro name v hv
  rw [get?_project] at hv
  split at hv
  · exact h name v hv
  · cases hv

end Document

/-- Rows that text keeps. -/
def Rows.Plain (rows : Rows) : Prop := ∀ key row, rows.get? key = some row → Document.Plain row

theorem Snapshot.Sound.plain_data {s : Snapshot} (h : s.Sound) {w : PreparedWrite}
    (hw : s.prepareWrite = .ok w) : Document.Plain w.data := by
  have hplain : ∀ doc, toDocument s.data = .ok doc → Document.Plain doc := by
    intro doc hdoc name v hv
    rw [RecordType.Holds.get?_toDocument h hdoc] at hv
    exact RecordType.Holds.readBack_field h hv
  have hwritten : ∃ data, s.writtenFields = .ok data ∧ w.data = data := by
    cases hf : s.writtenFields with
    | error e => simp [prepareWrite, hf, Except.map] at hw
    | ok data =>
        simp only [prepareWrite, hf, Except.map, Except.ok.injEq] at hw
        exact ⟨data, rfl, (congrArg PreparedWrite.data hw).symm⟩
  obtain ⟨data, hdata, rfl⟩ := hwritten
  cases hdoc : toDocument s.data with
  | error e =>
      cases hl : s.pending.lifecycle with
      | new | normal => simp [writtenFields, hl, hdoc, Except.map] at hdata
      | deleted | unavailable =>
          simp only [writtenFields, hl, Except.ok.injEq] at hdata
          intro name v hv
          rw [← hdata] at hv
          cases hv
  | ok doc =>
      cases hl : s.pending.lifecycle with
      | new | normal =>
          simp only [writtenFields, hl, hdoc, Except.map, Except.ok.injEq] at hdata
          rw [← hdata]
          exact (hplain doc hdoc).project _ _
      | deleted | unavailable =>
          simp only [writtenFields, hl, Except.ok.injEq] at hdata
          intro name v hv
          rw [← hdata] at hv
          cases hv

theorem plain_prepareAll {cs : List Commitment} (h : ∀ c ∈ cs, c.Sound) {w : PreparedWrite}
    (hw : w ∈ prepareAll cs) : Document.Plain w.data := by
  rw [prepareAll, List.mem_filterMap] at hw
  obtain ⟨c, hc, hprepared⟩ := hw
  have hsound := h c hc
  cases c with
  | foreign f => exact absurd hsound id
  | snapshot s =>
      cases hs : s.prepareWrite with
      | error e => simp [Commitment.prepareWrite, hs, Except.toOption] at hprepared
      | ok w' =>
          obtain rfl : w' = w := by
            simpa [Commitment.prepareWrite, hs, Except.toOption] using hprepared
          exact Snapshot.Sound.plain_data hsound hs

theorem Rows.Plain.applyWrite {rows : Rows} (h : Rows.Plain rows) {w : PreparedWrite}
    (hw : Document.Plain w.data) : Rows.Plain (rows.applyWrite w) := by
  intro key row hrow
  rw [Rows.get?_applyWrite] at hrow
  split at hrow
  · cases hl : w.lifecycle with
    | new =>
        obtain rfl : w.data = row := by simpa [PreparedWrite.onRow, hl] using hrow
        exact hw
    | normal =>
        obtain ⟨old, hold, rfl⟩ : ∃ old, rows.get? key = some old ∧ old.overlay w.data = row := by
          simpa [PreparedWrite.onRow, hl] using hrow
        exact (h key old hold).overlay hw
    | deleted => simp [PreparedWrite.onRow, hl] at hrow
    | unavailable => exact h key row (by simpa [PreparedWrite.onRow, hl] using hrow)
  · exact h key row hrow

/-- On plain rows a database file does what a table in memory does. -/
theorem FileStore.foldl_applyWrite {rows : Rows} (h : Rows.Plain rows)
    {ws : List PreparedWrite} (hws : ∀ w ∈ ws, Document.Plain w.data) :
    ws.foldl applyWrite rows = rows.applyAll ws ∧ Rows.Plain (rows.applyAll ws) := by
  induction ws generalizing rows with
  | nil => exact ⟨rfl, h⟩
  | cons w ws ih =>
      have hback : (rows.get? w.key).map Document.readBack = rows.get? w.key := by
        cases hrow : rows.get? w.key with
        | none => rfl
        | some row => exact congrArg some (h w.key row hrow).readBack
      have hstep : applyWrite rows w = rows.applyWrite w := by
        rw [applyWrite, hback]
        rfl
      rw [List.foldl_cons, hstep]
      exact ih (h.applyWrite (hws w List.mem_cons_self))
        fun v hv => hws v (List.mem_cons_of_mem w hv)

/-! ## Tables in memory -/

namespace MemoryTable

/-- One attempt at some writes, beside the number of questions asked so far. -/
def tryOnce (ws : List PreparedWrite) (s : MemoryTable × Nat) :
    Except Error Unit × MemoryTable × Nat :=
  ((s.1.apply ws).1, (s.1.apply ws).2, s.2)

/-- The question whether to try again. -/
def ask (answers : Nat → Bool) (s : MemoryTable × Nat) : Bool × MemoryTable × Nat :=
  (answers s.2, s.1, s.2 + 1)

theorem attempts_eq (t : MemoryTable) (answers : Nat → Bool) (ws : List PreparedWrite) :
    t.attempts answers ws = retryWhile (tryOnce ws) (ask answers) (t.failBudget + 1) (t, 0) :=
  rfl

/-- The attempts at some writes come to an end.  Either one of them is taken, or the
table is left as it was after a question was answered with no. -/
theorem attempts_cases (t : MemoryTable) (answers : Nat → Bool) (ws : List PreparedWrite) :
    ∃ result t' asked, t.attempts answers ws = some (result, t', asked) ∧
      (result = .ok () ∧ t'.rows = t.rows.applyAll ws ∨
        (∃ e, result = .error e) ∧ t'.rows = t.rows ∧ ∃ k, answers k = false) := by
  have hrun : ∀ (budget asked : Nat) (t : MemoryTable), t.failBudget = budget →
      ∃ result t' asked',
        retryWhile (tryOnce ws) (ask answers) (budget + 1) (t, asked) =
          some (result, t', asked') ∧
        (result = .ok () ∧ t'.rows = t.rows.applyAll ws ∨
          (∃ e, result = .error e) ∧ t'.rows = t.rows ∧ ∃ k, answers k = false) := by
    intro budget
    induction budget with
    | zero =>
        intro asked t ht
        refine ⟨.ok (), { t with
          rows := t.rows.applyAll ws
          written := t.written + t.rows.countWritten ws }, asked, ?_, .inl ⟨rfl, rfl⟩⟩
        simp [retryWhile, tryOnce, apply, ht]
    | succ budget ih =>
        intro asked t ht
        cases ha : answers asked with
        | true =>
            obtain ⟨result, t', asked', hrest, hcases⟩ := ih (asked + 1)
              { t with failBudget := budget, failures := t.failures + 1 } rfl
            refine ⟨result, t', asked', ?_, hcases⟩
            rw [retryWhile]
            simpa [tryOnce, ask, apply, ht, ha] using hrest
        | false =>
            refine ⟨.error (.custom s!"{t.name} refused the write"),
              { t with failBudget := budget, failures := t.failures + 1 }, asked + 1, ?_,
              .inr ⟨⟨_, rfl⟩, rfl, asked, ha⟩⟩
            rw [retryWhile]
            simp [tryOnce, ask, apply, ht, ha]
  rw [attempts_eq]
  exact hrun t.failBudget 0 t rfl

/-- A table takes all commitments of a call, or it refuses them and keeps its rows. -/
theorem save_cases (t : MemoryTable) (answers : Nat → Bool) (cs : List Commitment) :
    ((t.save answers cs).1 = true ∧
      (t.save answers cs).2.rows = t.rows.applyAll (prepareAll cs)) ∨
    ((t.save answers cs).1 = false ∧ (t.save answers cs).2.rows = t.rows ∧
      ∃ k, answers k = false) := by
  obtain ⟨result, t', asked, hattempts, hcases⟩ :=
    attempts_cases { t with saves := t.saves + 1 } answers (prepareAll cs)
  rcases hcases with ⟨rfl, hrows⟩ | ⟨⟨e, rfl⟩, hrows, hno⟩
  · left
    exact ⟨by simp [save, hattempts], by simpa [save, hattempts] using hrows⟩
  · right
    exact ⟨by simp [save, hattempts], by simpa [save, hattempts] using hrows, hno⟩

theorem save_of_no_budget {t : MemoryTable} (h : t.failBudget = 0)
    (answers : Nat → Bool) (cs : List Commitment) :
    t.save answers cs = (true, { t with
      saves := t.saves + 1
      rows := t.rows.applyAll (prepareAll cs)
      written := t.written + t.rows.countWritten (prepareAll cs) }) := by
  simp [save, attempts, retryWhile, apply, h]

theorem recover_of_no_budget {t : MemoryTable} (h : t.failBudget = 0) (cs : List Commitment) :
    t.recover cs = (.ok (), { t with
      rows := t.rows.applyAll (prepareAll cs)
      written := t.written + t.rows.countWritten (prepareAll cs) }) := by
  simp [recover, apply, h]

end MemoryTable

/-! ## Tables that take everything -/

namespace Storage

/-- What a table reference leads to. -/
def content (s : Storage) (table : TableRef) : Option MemoryTable × Rows :=
  (s.memoryTable? table,
    match table with
    | .file path name => s.files.written path name
    | .none | .memory _ | .audited _ => .empty)

/-- A table that refuses nothing, with rows that text keeps. -/
def Ready (table : TableRef) (s : Storage) : Prop :=
  match table with
  | .none => False
  | .memory _ | .audited _ => ∃ t, s.memoryTable? table = some t ∧ t.failBudget = 0
  | .file path name => Rows.Plain (s.files.written path name)

/-- A table that may refuse attempts, with rows that text keeps. -/
def Present (table : TableRef) (s : Storage) : Prop :=
  match table with
  | .none => False
  | .memory _ | .audited _ => ∃ t, s.memoryTable? table = some t
  | .file path name => Rows.Plain (s.files.written path name)

section Content

variable {s s' : Storage} {table other : TableRef}

theorem rows_congr (h : s'.content table = s.content table) : s'.rows table = s.rows table := by
  cases table with
  | none => rfl
  | memory ns | audited ns =>
      have hmemory := congrArg Prod.fst h
      simp only [content] at hmemory
      simp only [rows, hmemory]
  | file path name =>
      have hwritten := congrArg Prod.snd h
      simp only [content] at hwritten
      simp only [rows, FileStore.rows, hwritten]

theorem Ready.congr (h : s'.content table = s.content table) (hs : Ready table s) :
    Ready table s' := by
  cases table with
  | none => exact hs
  | memory ns | audited ns =>
      have hmemory := congrArg Prod.fst h
      simp only [content] at hmemory
      simpa only [Ready, hmemory] using hs
  | file path name =>
      have hwritten := congrArg Prod.snd h
      simp only [content] at hwritten
      simpa only [Ready, hwritten] using hs

/-- Asking an audited store is written down and changes no table. -/
theorem content_askTable (s : Storage) (other table : TableRef) (stage : Stage) :
    (s.askTable other stage).2.content table = s.content table := by
  cases other with
  | none | memory ns | file path name => rfl
  | audited ns => cases table <;> rfl

theorem content_read (other table : TableRef) (stage : Stage) (rows : Rows → List Document)
    (s : Storage) : (read other stage rows s).2.content table = s.content table := by
  have hasked := content_askTable s other table stage
  cases hask : s.askTable other stage with
  | mk result s' =>
      rw [hask] at hasked
      cases result with
      | error e => simpa [read, hask] using hasked
      | ok u => simpa [read, hask] using hasked

/-- A fetch is refused, or it gives the row of its key. -/
theorem fetch_cases (s : Storage) (table : TableRef) (onlyOne : Bool) (key : String) :
    (∃ e, (fetch table onlyOne key s).1 = .error e) ∨
      (fetch table onlyOne key s).1 = .ok (.ofRows ((s.rows table).select [key])) := by
  have hasked := content_askTable s table table (.fetch onlyOne key)
  cases hask : s.askTable table (.fetch onlyOne key) with
  | mk result s' =>
      rw [hask] at hasked
      cases result with
      | error e =>
          left
          exact ⟨e, by simp [fetch, read, hask]⟩
      | ok u =>
          right
          simp only [fetch, read, hask]
          rw [rows_congr hasked]

/-- A write to another table. -/
theorem content_save (h : other ≠ table) (cs : List Commitment) (running : Bool)
    (s : Storage) : (save other cs running s).2.content table = s.content table := by
  cases other with
  | none => rfl
  | memory ns =>
      have hcontent : ∀ t : MemoryTable,
          content { s with memory := { s.memory with tables := s.memory.tables.insert ns t } }
            table = s.content table := by
        intro t
        cases table with
        | none | audited ns' | file path name => rfl
        | memory ns' =>
            have hne : ns ≠ ns' := fun heq => h (congrArg TableRef.memory heq)
            simp [content, memoryTable?, hne]
      cases ht : s.memory.tables.get? ns with
      | none => simp [save, saveWhile, withMemoryTable, MemoryStore.withTable, ht]
      | some t =>
          simp only [save, saveWhile, withMemoryTable, MemoryStore.withTable, ht]
          exact hcontent _
  | audited ns =>
      have hcontent : ∀ t : MemoryTable,
          content { s with audited := { s.audited with
              store := { s.audited.store with tables := s.audited.store.tables.insert ns t } } }
            table = s.content table := by
        intro t
        cases table with
        | none | memory ns' | file path name => rfl
        | audited ns' =>
            have hne : ns ≠ ns' := fun heq => h (congrArg TableRef.audited heq)
            simp [content, memoryTable?, hne]
      cases ht : s.audited.store.tables.get? ns with
      | none => simp [save, saveWhile, withMemoryTable, MemoryStore.withTable, ht]
      | some t =>
          simp only [save, saveWhile, withMemoryTable, MemoryStore.withTable, ht]
          exact hcontent _
  | file path name =>
      cases table with
      | none | memory ns | audited ns => rfl
      | file path' name' =>
          simp only [save, saveWhile, writeFile, FileStore.write, content, memoryTable?,
            FileStore.written, SortedMap.get?_insert, Prod.mk.injEq, true_and]
          by_cases hpath : path = path'
          · subst hpath
            have hname : name ≠ name' := fun heq => h (congrArg (TableRef.file path) heq)
            simp [hname]
          · rw [if_neg hpath]

end Content

theorem rows_of_plain {s : Storage} {path name : String}
    (h : Rows.Plain (s.files.written path name)) :
    s.rows (.file path name) = s.files.written path name := by
  refine SortedMap.ext_get? fun key => ?_
  rw [rows, FileStore.rows, SortedMap.get?_map]
  cases hrow : (s.files.written path name).get? key with
  | none => rfl
  | some row => exact congrArg some (h key row hrow).readBack

/-- A change of a table in memory is seen in that table. -/
theorem memoryTable?_withMemoryTable {s : Storage} {table : TableRef} {t : MemoryTable}
    (h : s.memoryTable? table = some t) {α : Type} (absent : α)
    (f : MemoryTable → α × MemoryTable) :
    (s.withMemoryTable table absent f).1 = (f t).1 ∧
      (s.withMemoryTable table absent f).2.memoryTable? table = some (f t).2 := by
  cases table with
  | none | file path name => cases h
  | memory ns | audited ns =>
      rw [memoryTable?] at h
      simp [withMemoryTable, MemoryStore.withTable, h, memoryTable?]

theorem withMemoryTable_of_none {s : Storage} {table : TableRef} {α : Type}
    (h : s.memoryTable? table = none) (absent : α) (f : MemoryTable → α × MemoryTable) :
    s.withMemoryTable table absent f = (absent, s) := by
  cases table with
  | none | file path name => rfl
  | memory ns | audited ns =>
      rw [memoryTable?] at h
      simp [withMemoryTable, MemoryStore.withTable, h]

/-- Writes to a database file whose rows text keeps. -/
theorem written_writeFile {s : Storage} {path name : String}
    (h : Rows.Plain (s.files.written path name)) {cs : List Commitment}
    (hcs : ∀ w ∈ prepareAll cs, Document.Plain w.data) :
    Rows.Plain ((s.writeFile path name cs).files.written path name) ∧
      (s.writeFile path name cs).rows (.file path name) =
        (s.rows (.file path name)).applyAll (prepareAll cs) := by
  obtain ⟨hfold, hafter⟩ := FileStore.foldl_applyWrite h hcs
  have hwritten : (s.writeFile path name cs).files.written path name =
      (s.files.written path name).applyAll (prepareAll cs) := by
    rw [← hfold]
    simp [writeFile, FileStore.write, FileStore.written]
  have hplain : Rows.Plain ((s.writeFile path name cs).files.written path name) := by
    rw [hwritten]
    exact hafter
  refine ⟨hplain, ?_⟩
  rw [rows_of_plain hplain, rows_of_plain h, hwritten]

section Calls

variable {s : Storage} {table : TableRef} {cs : List Commitment}
  (hcs : ∀ w ∈ prepareAll cs, Document.Plain w.data)

include hcs

/-- What a ready table does with writes that text keeps, whoever asks. -/
theorem saveWhile_spec (answers : Nat → Bool) (h : Ready table s) :
    (saveWhile answers table cs s).1 = true ∧ Ready table (saveWhile answers table cs s).2 ∧
      (saveWhile answers table cs s).2.rows table = (s.rows table).applyAll (prepareAll cs) := by
  cases table with
  | none => exact absurd h id
  | memory ns | audited ns =>
      obtain ⟨t, ht, hbudget⟩ := h
      obtain ⟨hok, htable⟩ := memoryTable?_withMemoryTable ht true fun t => t.save answers cs
      rw [MemoryTable.save_of_no_budget hbudget] at hok htable
      refine ⟨hok, ⟨_, htable, hbudget⟩, ?_⟩
      simp only [saveWhile, rows, htable, ht]
      rfl
  | file path name => exact ⟨rfl, written_writeFile h hcs⟩

/-- A table takes all of a call, or it refuses it after a question was answered with no
and keeps its rows. -/
theorem saveWhile_cases (answers : Nat → Bool) (h : Present table s) :
    Present table (saveWhile answers table cs s).2 ∧
      (((saveWhile answers table cs s).1 = true ∧
        (saveWhile answers table cs s).2.rows table = (s.rows table).applyAll (prepareAll cs)) ∨
      ((saveWhile answers table cs s).1 = false ∧
        (saveWhile answers table cs s).2.rows table = s.rows table ∧ ∃ k, answers k = false)) := by
  cases table with
  | none => exact absurd h id
  | memory ns | audited ns =>
      obtain ⟨t, ht⟩ := h
      obtain ⟨hok, htable⟩ := memoryTable?_withMemoryTable ht true fun t => t.save answers cs
      refine ⟨⟨_, htable⟩, ?_⟩
      simp only [saveWhile, rows, htable, ht, hok]
      exact t.save_cases answers cs
  | file path name =>
      obtain ⟨hplain, hrows⟩ := written_writeFile h hcs
      exact ⟨hplain, .inl ⟨rfl, hrows⟩⟩

/-- What a ready table does with commitments after a crash. -/
theorem recover_spec (hdirect : ∀ ns, table ≠ .audited ns) (h : Ready table s) :
    (recover table cs s).1 = .ok () ∧ Ready table (recover table cs s).2 ∧
      (recover table cs s).2.rows table = (s.rows table).applyAll (prepareAll cs) := by
  cases table with
  | none => exact absurd h id
  | audited ns => exact absurd rfl (hdirect ns)
  | memory ns =>
      obtain ⟨t, ht, hbudget⟩ := h
      obtain ⟨hok, htable⟩ := memoryTable?_withMemoryTable ht (.ok ()) fun t => t.recover cs
      rw [MemoryTable.recover_of_no_budget hbudget] at hok htable
      refine ⟨hok, ⟨_, htable, hbudget⟩, ?_⟩
      simp only [recover, askTable, rows, htable, ht]
      rfl
  | file path name => exact ⟨rfl, written_writeFile h hcs⟩

end Calls

/-- What a ready table does with sound commitments. -/
theorem save_spec {table : TableRef} {cs : List Commitment} (running : Bool) {s : Storage}
    (h : Ready table s) (hcs : ∀ c ∈ cs, c.Sound) :
    (save table cs running s).1 = true ∧ Ready table (save table cs running s).2 ∧
      (save table cs running s).2.rows table = (s.rows table).applyAll (prepareAll cs) :=
  saveWhile_spec (fun _ hw => plain_prepareAll hcs hw) (fun _ => running) h

/-- A ready table takes whatever it is given. -/
theorem takes_save (table : TableRef) :
    Takes (save table) (fun s => s.rows table) (Ready table) where
  accepts := fun h hcs => (save_spec _ h hcs).1
  good := fun h hcs => (save_spec _ h hcs).2.1
  rows := fun h hcs => (save_spec _ h hcs).2.2

end Storage

end WriteBehind
