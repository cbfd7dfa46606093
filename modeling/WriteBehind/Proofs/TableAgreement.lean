import WriteBehind.Proofs.Coalescing
import WriteBehind.Proofs.TableWrites

/-!
# Tables in memory and in database files answer alike

A table in memory edits its rows in place.  A table in a database file keeps them as
text, reads back every row that it touches and writes it anew.  What a table should
answer depends on its rows alone: `TableCall.answer` and `TableCall.after` say it for
every call, and `TableCall.answered` puts it in terms of look-ups, with the order in
which rows are read.  A ready table does just that (`Storage.ask_of_ready`), and so do
two fresh ones, one of either kind, call after call (`Storage.transcripts_agree`).
-/

namespace WriteBehind

/-! ## Calls and answers -/

/-- What a table can be asked for. -/
inductive TableCall where
  /-- After the `k`-th refused attempt another one is made if `answers k` holds. -/
  | save (answers : Nat → Bool) (cs : List Commitment)
  | recover (cs : List Commitment)
  | fetch (onlyOne : Bool) (key : String)
  | fetchMulti (keys : List String)
  | find (filter : Document)

/-- What a table answers. -/
inductive TableAnswer where
  | saved (ok : Bool)
  | recovered (result : Except Error Unit)
  | read (result : Except Error Cursor)

namespace TableCall

/-- Asks a table of a storage. -/
def ask (table : TableRef) (s : Storage) : TableCall → TableAnswer × Storage
  | .save answers cs =>
    let (ok, s) := Storage.saveWhile answers table cs s
    (.saved ok, s)
  | .recover cs =>
    let (result, s) := Storage.recover table cs s
    (.recovered result, s)
  | .fetch onlyOne key =>
    let (result, s) := Storage.fetch table onlyOne key s
    (.read result, s)
  | .fetchMulti keys =>
    let (result, s) := Storage.fetchMulti table keys s
    (.read result, s)
  | .find filter =>
    let (result, s) := Storage.find table filter s
    (.read result, s)

/-- Whether text keeps what a call writes. -/
def Plain : TableCall → Prop
  | .save _ cs | .recover cs => ∀ w ∈ prepareAll cs, Document.Plain w.data
  | .fetch _ _ | .fetchMulti _ | .find _ => True

/-- The rows after a call that is granted. -/
def after (rows : Rows) : TableCall → Rows
  | .save _ cs | .recover cs => rows.applyAll (prepareAll cs)
  | .fetch _ _ | .fetchMulti _ | .find _ => rows

/-- The answer to a call that is granted. -/
def answer (rows : Rows) : TableCall → TableAnswer
  | .save _ _ => .saved true
  | .recover _ => .recovered (.ok ())
  | .fetch _ key => .read (.ok (.ofRows (rows.select [key])))
  | .fetchMulti keys => .read (.ok (.ofRows (rows.select keys)))
  | .find filter => .read (.ok (.ofRows (rows.find filter)))

/-- What an answer must be.  Writes succeed, a fetch gives the row of its key, a fetch
of several keys gives their rows in the order of the request, and a search gives the
rows that match in the increasing order of their keys. -/
def Answered (rows : Rows) : TableCall → TableAnswer → Prop
  | .save _ _, given => given = .saved true
  | .recover _, given => given = .recovered (.ok ())
  | .fetch _ key, given => given = .read (.ok (.ofRows (rows.get? key).toList))
  | .fetchMulti keys, given => given = .read (.ok (.ofRows (keys.filterMap rows.get?)))
  | .find filter, given => ∃ keys : List String, keys.Pairwise (· < ·) ∧
      (∀ key, key ∈ keys ↔ ∃ row, rows.get? key = some row ∧ rowMatches row filter = true) ∧
      given = .read (.ok (.ofRows (keys.filterMap rows.get?)))

end TableCall

/-! ## Rows in the order of their keys -/

/-- The keys of the rows that match a filter. -/
def Rows.matching (rows : Rows) (filter : Document) : List String :=
  (rows.entries.filter fun e => rowMatches e.2 filter).map (·.1)

namespace Rows

theorem pairwise_matching (rows : Rows) (filter : Document) :
    (rows.matching filter).Pairwise (· < ·) :=
  List.pairwise_map.mpr (rows.sorted.filter _)

theorem mem_matching {rows : Rows} {filter : Document} {key : String} :
    key ∈ rows.matching filter ↔
      ∃ row, rows.get? key = some row ∧ rowMatches row filter = true := by
  rw [matching, List.mem_map]
  constructor
  · rintro ⟨⟨k, row⟩, hmem, rfl⟩
    rw [List.mem_filter] at hmem
    exact ⟨row, SortedMap.get?_eq_some_iff.mpr hmem.1, hmem.2⟩
  · rintro ⟨row, hrow, hmatch⟩
    refine ⟨(key, row), ?_, rfl⟩
    rw [List.mem_filter]
    exact ⟨SortedMap.get?_eq_some_iff.mp hrow, hmatch⟩

/-- A search reads the rows of the matching keys. -/
theorem find_eq_select (rows : Rows) (filter : Document) :
    rows.find filter = (rows.matching filter).filterMap rows.get? := by
  have hget : ∀ e ∈ rows.entries.filter (fun e => rowMatches e.2 filter),
      rows.get? e.1 = some e.2 := by
    intro e he
    exact SortedMap.get?_eq_some_iff.mpr (List.mem_filter.mp he).1
  rw [matching, List.filterMap_map, find, SortedMap.values, List.filter_map]
  symm
  calc
    (rows.entries.filter fun e => rowMatches e.2 filter).filterMap (fun e => rows.get? e.1) =
        (rows.entries.filter fun e => rowMatches e.2 filter).filterMap (fun e => some e.2) :=
      List.filterMap_congr hget
    _ = (rows.entries.filter fun e => rowMatches e.2 filter).map (·.2) := by
      rw [← List.filterMap_eq_map]
      rfl

end Rows

/-- The answer to a call is what it must be. -/
theorem TableCall.answered (call : TableCall) (rows : Rows) :
    call.Answered rows (call.answer rows) := by
  cases call with
  | save answers cs => rfl
  | recover cs => rfl
  | fetch onlyOne key =>
      rw [Answered, answer, Rows.select]
      cases hrow : rows.get? key with
      | none => simp [hrow]
      | some row => simp [hrow]
  | fetchMulti keys => rfl
  | find filter =>
      refine ⟨rows.matching filter, rows.pairwise_matching filter, ?_, ?_⟩
      · intro key
        exact Rows.mem_matching
      · rw [answer, Rows.find_eq_select]

/-! ## Asking a table -/

/-- What was answered to calls, each with the rows after it, if a table has some rows
before. -/
inductive Transcript : Rows → List TableCall → List (TableAnswer × Rows) → Prop
  | nil {rows : Rows} : Transcript rows [] []
  | cons {rows : Rows} {call : TableCall} {calls : List TableCall} {given : TableAnswer}
      {rest : List (TableAnswer × Rows)} (answered : call.Answered rows given)
      (later : Transcript (call.after rows) calls rest) :
      Transcript rows (call :: calls) ((given, call.after rows) :: rest)

/-- The transcript of calls that are all granted. -/
def Rows.transcript (rows : Rows) : List TableCall → List (TableAnswer × Rows)
  | [] => []
  | call :: calls => (call.answer rows, call.after rows) :: (call.after rows).transcript calls

theorem Rows.transcript_spec (rows : Rows) (calls : List TableCall) :
    Transcript rows calls (rows.transcript calls) := by
  induction calls generalizing rows with
  | nil => exact .nil
  | cons call calls ih => exact .cons (call.answered rows) (ih (call.after rows))

namespace Storage

/-- The answers of a table to calls, each with its rows after the call. -/
def transcript (table : TableRef) (s : Storage) : List TableCall → List (TableAnswer × Rows)
  | [] => []
  | call :: calls =>
    let (given, s) := call.ask table s
    (given, s.rows table) :: s.transcript table calls

section Ready

variable {s : Storage} {table : TableRef} (hdirect : ∀ ns, table ≠ .audited ns)

include hdirect

/-- Tables that are not audited are not asked twice. -/
theorem askTable_of_direct (s : Storage) (stage : Stage) :
    s.askTable table stage = (.ok (), s) := by
  cases table with
  | audited ns => exact absurd rfl (hdirect ns)
  | none | memory ns | file path name => rfl

theorem read_of_direct (s : Storage) (stage : Stage) (rows : Rows → List Document) :
    read table stage rows s = (.ok (.ofRows (rows (s.rows table))), s) := by
  rw [read, askTable_of_direct hdirect]

/-- A ready table answers as its rows tell it to, and is ready again. -/
theorem ask_of_ready {call : TableCall} (h : Ready table s) (hcall : call.Plain) :
    (call.ask table s).1 = call.answer (s.rows table) ∧
      (call.ask table s).2.rows table = call.after (s.rows table) ∧
      Ready table (call.ask table s).2 := by
  cases call with
  | save answers cs =>
      obtain ⟨hok, hready, hrows⟩ := saveWhile_spec hcall answers h
      exact ⟨congrArg TableAnswer.saved hok, hrows, hready⟩
  | recover cs =>
      obtain ⟨hok, hready, hrows⟩ := recover_spec hcall hdirect h
      exact ⟨congrArg TableAnswer.recovered hok, hrows, hready⟩
  | fetch onlyOne key | fetchMulti keys | find filter =>
      have hread := read_of_direct hdirect s
      simp only [TableCall.ask, fetch, fetchMulti, find, hread]
      exact ⟨rfl, rfl, h⟩

theorem transcript_of_ready {calls : List TableCall} (h : Ready table s)
    (hcalls : ∀ call ∈ calls, call.Plain) :
    s.transcript table calls = (s.rows table).transcript calls := by
  induction calls generalizing s with
  | nil => rfl
  | cons call calls ih =>
      obtain ⟨hanswer, hrows, hready⟩ :=
        ask_of_ready hdirect h (hcalls call List.mem_cons_self)
      have hrest := ih hready fun c hc => hcalls c (List.mem_cons_of_mem call hc)
      rw [hrows] at hrest
      simp only [transcript, Rows.transcript, hrest, hanswer, hrows]

end Ready

/-- A fresh table in memory and a fresh one in a database file agree.  Whatever they
are asked for, as long as text keeps what is written, they give the same answers and
hold the same rows after every call; the answers are those that the rows ask for, with
rows in the order of the request or of their keys. -/
theorem transcripts_agree {memory file : Storage} {ns name path table : String}
    (hmemory : memory.memoryTable? (.memory ns) = some { name })
    (hfile : file.files.written path table = .empty) {calls : List TableCall}
    (hcalls : ∀ call ∈ calls, call.Plain) :
    memory.transcript (.memory ns) calls = file.transcript (.file path table) calls ∧
      Transcript .empty calls (memory.transcript (.memory ns) calls) := by
  have hfileReady : Ready (.file path table) file := by
    intro key row hrow
    rw [hfile] at hrow
    cases hrow
  have hmemoryRows : memory.rows (.memory ns) = .empty := by
    rw [rows, hmemory]
    rfl
  have hfileRows : file.rows (.file path table) = .empty := by
    rw [rows_of_plain hfileReady, hfile]
  have hmemoryReady : Ready (.memory ns) memory := ⟨{ name }, hmemory, rfl⟩
  have hleft := transcript_of_ready (by simp) hmemoryReady hcalls
  have hright := transcript_of_ready (by simp) hfileReady hcalls
  rw [hmemoryRows] at hleft
  rw [hfileRows] at hright
  constructor
  · rw [hleft, hright]
  · rw [hleft]
    exact Rows.transcript_spec .empty calls

end Storage

/-! ## Fresh tables

A table that was just opened has the rows that its database file had before. -/

namespace FileStore

theorem files_makeDirectories (f : FileStore) (place : Place) (names : List String) :
    (f.makeDirectories place names).2.files = f.files := by
  induction names generalizing f place with
  | nil => rfl
  | cons name rest ih =>
      rw [makeDirectories]
      split
      · exact ih f _
      · split
        · exact ih _ _
        · rfl

theorem files_makeParent (f : FileStore) (path : String) :
    (f.makeParent path).2.files = f.files := by
  rw [makeParent]
  split
  · exact files_makeDirectories f _ _
  · rfl

/-- A database that holds what was there, put back at its place. -/
theorem written_insert {f g : FileStore} {path : String} {database : Database}
    (hfiles : g.files = f.files.insert path database)
    (hsame : ∀ table, (database.get? table).getD .empty = f.written path table)
    (other table : String) : g.written other table = f.written other table := by
  rw [written, hfiles, SortedMap.get?_insert]
  by_cases hpath : path = other
  · subst hpath
    rw [if_pos rfl]
    exact hsame table
  · rw [if_neg hpath]
    rfl

/-- Opening a database file changes no row. -/
theorem written_openDao (f : FileStore) (options : Json) (other table : String) :
    (f.openDao options).2.written other table = f.written other table := by
  cases hread : FileOptions.read? options with
  | none => simp [openDao, hread]
  | some o =>
      have hfiles := files_makeParent f o.path
      simp only [openDao, hread]
      generalize f.makeParent o.path = made at hfiles ⊢
      obtain ⟨place, g⟩ := made
      replace hfiles : g.files = f.files := hfiles
      have hkept : g.written other table = f.written other table := by
        rw [written, hfiles]
        rfl
      cases place with
      | none => exact hkept
      | some place =>
          dsimp only
          split
          · exact hkept
          · split
            · exact hkept
            next file _ =>
              split
              · exact hkept
              · rw [← hkept]
                exact written_insert rfl (fun _ => rfl) other table

/-- Opening a table changes no row. -/
theorem written_openTable (f : FileStore) (path ns name other table : String) :
    (f.openTable path ns name).2.written other table = f.written other table := by
  cases hmemo : ((f.opened.get? path).getD .empty).get? ns with
  | some used =>
      simp only [openTable, Memo.getOrCreate, hmemo]
      exact written_insert rfl (fun _ => rfl) other table
  | none =>
      by_cases hname : name.isEmpty = true
      · simp only [openTable, Memo.getOrCreate, hmemo, hname, if_true]
        exact written_insert rfl (fun _ => rfl) other table
      · simp only [openTable, Memo.getOrCreate, hmemo, hname, Bool.false_eq_true, if_false]
        apply written_insert rfl
        intro t
        rw [SortedMap.get?_insert]
        by_cases ht : name = t
        · subst ht
          simp [written]
        · rw [if_neg ht]
          rfl

end FileStore

/-! ## Two tables of heroes -/

namespace Sample

/-- The meta data of heroes that a driver stores. -/
def heroMeta (driver : Driver) : SourceMeta :=
  ⟨hero, driver.name, "db", "heroes", false, 1⟩

/-- A store in memory with a fresh table of heroes. -/
def heroMemory : Storage :=
  ((({} : Storage).openDao .memory (.obj [])).2.openTable .memory (heroMeta .memory)).2

/-- A database file with a fresh table of heroes. -/
def heroFile : Storage :=
  ((({} : Storage).openDao .file (.obj [("path", .str "db")])).2.openTable (.file "/work/db")
    (heroMeta .file)).2

/-- Two heroes come and the first one rises, keys are asked for twice and in vain, the
second one goes after a crash, and the heroes of a level are looked for. -/
def heroTableCalls : List TableCall :=
  [.save (fun _ => false)
      [.snapshot (heroSnapshot .new .empty 1 1), .snapshot (heroSnapshot .new .empty 2 5),
        .snapshot (heroSnapshot .normal heroLevel 1 3)],
    .fetchMulti ["2", "1", "7", "2"],
    .recover [.snapshot (heroSnapshot .deleted .empty 2 5)],
    .find (.ofList [("level", .int 3)]), .fetch true "1"]

theorem plain_heroTableCalls : ∀ call ∈ heroTableCalls, call.Plain := by
  intro call hcall
  simp only [heroTableCalls, List.mem_cons, List.not_mem_nil, or_false] at hcall
  rcases hcall with rfl | rfl | rfl | rfl | rfl
  · intro w hw
    apply plain_prepareAll _ hw
    simp only [List.mem_cons, List.not_mem_nil, or_false]
    rintro c (rfl | rfl | rfl) <;> exact holds_heroOf (by omega) (by omega)
  · trivial
  · intro w hw
    apply plain_prepareAll _ hw
    simp only [List.mem_cons, List.not_mem_nil, or_false]
    rintro c rfl
    exact holds_heroOf (by omega) (by omega)
  · trivial
  · trivial

theorem written_heroFile : heroFile.files.written "/work/db" "heroes" = .empty := by
  have hopened : heroFile.files.written "/work/db" "heroes" =
      (FileStore.openTable (FileStore.openDao {} (.obj [("path", .str "db")])).2 "/work/db" "hero"
        "heroes").2.written "/work/db" "heroes" := rfl
  rw [hopened, FileStore.written_openTable, FileStore.written_openDao]
  rfl

theorem transcripts_agree_heroes :
    heroMemory.memoryTable? (.memory "hero") = some { name := "heroes" } ∧
      heroFile.files.written "/work/db" "heroes" = .empty ∧
      (∀ call ∈ heroTableCalls, call.Plain) ∧
      heroMemory.transcript (.memory "hero") heroTableCalls =
        heroFile.transcript (.file "/work/db" "heroes") heroTableCalls ∧
      Transcript .empty heroTableCalls (heroMemory.transcript (.memory "hero") heroTableCalls) := by
  have hmemory : heroMemory.memoryTable? (.memory "hero") = some { name := "heroes" } := rfl
  exact ⟨hmemory, written_heroFile, plain_heroTableCalls,
    Storage.transcripts_agree hmemory written_heroFile plain_heroTableCalls⟩

end Sample

end WriteBehind
