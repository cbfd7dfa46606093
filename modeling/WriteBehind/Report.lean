import WriteBehind.Cache

/-!
# Reports

What can be seen of the values of the library, as JSON: headers, records,
commitments, writes, sources, settings and the counters of tables and journals.
Bit sets, versions and durations are reported as decimal texts, for not every
reader of JSON keeps 64 bits.
-/

namespace WriteBehind

namespace Report

/-- A word as a decimal text. -/
def word (n : Nat) : Json := .str (toString n)

/-- A number or null. -/
def index : Option Nat → Json
  | some n => .int n
  | none => .null

/-- A list of texts. -/
def texts (l : List String) : Json := .arr (l.map .str)

/-- A map whose values are reported by a function. -/
def map {α : Type} (f : α → Json) (m : SortedMap α) : Json := .ofDocument (m.map f)

end Report

open Report

/-- A set of fields by its bits. -/
def FieldSet.report (s : FieldSet) : Json := word s.toNat

/-- A key of a form. -/
def KeyForm.report (form : KeyForm) (key : Key) : Document := .ofList [
  ("text", .str key.text),
  ("full", .bool key.full),
  ("filter", .ofDocument (form.filter key)),
  ("hash", word key.hash.toNat),
  ("empty", .bool key.isEmpty)]

/-- A header with its flags by name. -/
def Header.report (h : Header) : Json := .mkObj [
  ("lifecycle", .str h.lifecycle.name),
  ("gone", .bool h.lifecycle.isGone),
  ("flags", texts h.flagNames),
  ("changes", h.changes.report),
  ("saving_index", index h.savingIndex)]

/-- A record with its header and data. -/
def Record.report (r : Record) : Json := .mkObj [
  ("id", .str r.id),
  ("lifecycle", .str r.lifecycle.name),
  ("version", word r.version.toNat),
  ("dirty", .bool r.header.dirty),
  ("committing", .bool r.header.committing),
  ("saving_index", index r.header.savingIndex),
  ("header", r.header.report),
  ("data", r.data)]

/-- A commitment without its data. -/
def Commitment.report (c : Commitment) : Json := .mkObj [
  ("ns", .str c.ns),
  ("pk", .str c.keyText),
  ("lifecycle", .str c.lifecycle.name),
  ("changes", c.changes.report),
  ("version", word c.version.toNat)]

/-- A write with its data. -/
def PreparedWrite.report (w : PreparedWrite) : Json := .mkObj [
  ("key", .str w.key),
  ("lifecycle", .str w.lifecycle.name),
  ("filter", .ofDocument w.filter),
  ("data", .ofDocument w.data)]

/-- The size of a batch and whether it is due. -/
def Batch.report (b : Batch) : Document := .ofList [
  ("len", .int b.size),
  ("empty", .bool b.isEmpty),
  ("consumable", .bool b.consumable)]

/-- How often a journal was used. -/
def JournalCounts.report (c : JournalCounts) : Json := .mkObj [
  ("served", .int c.served),
  ("logged", .int c.logged),
  ("retired", .int c.retired),
  ("destroyed", .int c.destroyed)]

/-- How often a table was used, and its size. -/
def MemoryTable.report (t : MemoryTable) : Document := .ofList [
  ("len", .int t.rows.size),
  ("empty", .bool t.rows.isEmpty),
  ("saves", .int t.saves),
  ("written", .int t.written),
  ("failures", .int t.failures)]

/-- A source as drivers see it. -/
def SourceMeta.report (m : SourceMeta) : Json := .mkObj [
  ("namespace", .str m.ns),
  ("driver", .str m.driver),
  ("db", .str m.db),
  ("table", .str m.table),
  ("persisted_mask", m.model.record.persistedFields.report),
  ("replica", .bool m.replica),
  ("volatile", .bool m.model.volatile),
  ("groups", .int m.groups),
  ("fields", texts (m.fieldNames false)),
  ("all_fields", texts (m.fieldNames true)),
  ("is_persisted", .bool m.isPersisted),
  ("keys", .arr (m.keyCodes.map fun (code : Nat) => .int code))]

/-- The options of a table. -/
def TableOptions.report (o : TableOptions) : Json := .mkObj [
  ("dao_key", .str o.daoKey),
  ("concurrence", word o.concurrence),
  ("save_timeout", word o.saveTimeout),
  ("sync_interval", word o.syncInterval)]

/-- The options of a journal. -/
def RedoOptions.report (o : RedoOptions) : Json := .mkObj [
  ("enabled", .bool o.enabled),
  ("dir", (o.dir.map Json.str).getD .null)]

/-- All settings. -/
def Settings.report (s : Settings) : Document := .ofList [
  ("dry_run", .bool s.dryRun),
  ("redo", (s.redo.map RedoOptions.report).getD .null),
  ("drivers", .ofDocument s.drivers),
  ("daos", .ofDocument s.daos),
  ("tables", map TableOptions.report s.tables),
  ("defaults", map TableOptions.report s.defaults)]

/-- An instance with its callbacks, unless nobody observes them. -/
def Instance.report (i : Instance) (observed : Bool) : Document := .ofList [
  ("id", .str i.record.id),
  ("header", i.record.header.report),
  ("data", i.record.data),
  ("version", word i.record.version.toNat),
  ("events", if observed then texts (i.events.map Event.text) else .null),
  ("affine", .bool i.record.header.validateAffinity)]

end WriteBehind
